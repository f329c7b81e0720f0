/-
Pre- and postconditions for commands that change a state and may throw.

`Triple P c Q E`: started in a state with `P`, the command ends with `Q` or throws in
a state with `E`.
-/
namespace Command

variable {ε σ α β : Type}

def Triple (P : σ → Prop) (c : EStateM ε σ α) (Q : α → σ → Prop) (E : σ → Prop) : Prop :=
  ∀ s, P s → match c.run s with
    | .ok a s' => Q a s'
    | .error _ s' => E s'

namespace Triple

variable {P P' : σ → Prop} {Q Q' : α → σ → Prop} {R : β → σ → Prop} {E E' : σ → Prop}
  {c : EStateM ε σ α}

theorem of_ok {a : σ → α} {f : σ → σ} (hc : ∀ s, c.run s = .ok (a s) (f s))
    (h : ∀ s, P s → Q (a s) (f s)) : Triple P c Q E := by
  intro s hs
  rw [hc]
  exact h s hs

theorem conseq (h : Triple P c Q E) (hp : ∀ s, P' s → P s) (hq : ∀ a s, Q a s → Q' a s)
    (he : ∀ s, E s → E' s) : Triple P' c Q' E' := by
  intro s hs
  have hr := h s (hp s hs)
  revert hr
  cases c.run s with
  | ok a s' => exact hq a s'
  | error e s' => exact he s'

theorem pre (h : Triple P c Q E) (hp : ∀ s, P' s → P s) : Triple P' c Q E :=
  h.conseq hp (fun _ _ => id) fun _ => id

theorem pure {a : α} (h : ∀ s, P s → Q a s) : Triple P (pure a : EStateM ε σ α) Q E :=
  of_ok (a := fun _ => a) (f := id) (fun _ => rfl) h

theorem bind {f : α → EStateM ε σ β} (hc : Triple P c Q E)
    (hf : ∀ a, Triple (Q a) (f a) R E) : Triple P (c >>= f) R E := by
  intro s hs
  have h := hc s hs
  have hb : (c >>= f).run s = match c.run s with
      | .ok a s' => (f a).run s'
      | .error e s' => .error e s' := by
    have hr : (c >>= f).run s = EStateM.bind c f s := rfl
    rw [hr, EStateM.bind]
    unfold EStateM.run
    cases c s <;> rfl
  rw [hb]
  cases hcs : c.run s with
  | ok a s' =>
    rw [hcs] at h
    exact hf a s' h
  | error e s' =>
    rw [hcs] at h
    exact h

theorem ite {p : Prop} [Decidable p] {d : EStateM ε σ α} (hc : p → Triple P c Q E)
    (hd : ¬ p → Triple P d Q E) : Triple P (if p then c else d) Q E := by
  by_cases h : p
  · rw [if_pos h]
    exact hc h
  · rw [if_neg h]
    exact hd h

theorem forM {f : α → EStateM ε σ PUnit} (h : ∀ a, Triple P (f a) (fun _ => P) E)
    (xs : List α) : Triple P (xs.forM f) (fun _ => P) E := by
  induction xs with
  | nil => exact Triple.pure fun _ => id
  | cons x xs ih => exact Triple.bind (h x) fun _ => ih

end Triple

end Command
