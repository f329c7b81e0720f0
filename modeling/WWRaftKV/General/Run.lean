/-
Guarded runs of a transition function.

`Run step ok` is a run with a condition `ok` on every step, stated on the state
before the step and the action.  An invariant of the guarded steps holds at the
end of every guarded run.  `exec` is the same run as a function: a concrete run is
evaluated with it.
-/
import Mathlib.Logic.Basic

namespace Transition

variable {σ α : Type}

inductive Run (step : σ → α → Option σ) (ok : σ → α → Prop) : σ → List α → σ → Prop
  | nil (s : σ) : Run step ok s [] s
  | cons {s t u : σ} {a : α} {as : List α} (hok : ok s a) (hs : step s a = some t)
      (hr : Run step ok t as u) : Run step ok s (a :: as) u

def exec (step : σ → α → Option σ) (ok : σ → α → Prop) [∀ s a, Decidable (ok s a)] :
    σ → List α → Option σ
  | s, [] => some s
  | s, a :: as =>
    if ok s a then
      match step s a with
      | some t => exec step ok t as
      | none => none
    else none

namespace Run

variable {step : σ → α → Option σ} {ok ok' : σ → α → Prop} {s t : σ} {as : List α}

theorem of_exec [∀ s a, Decidable (ok s a)] (h : exec step ok s as = some t) :
    Run step ok s as t := by
  induction as generalizing s with
  | nil =>
    obtain rfl : s = t := Option.some.inj h
    exact .nil s
  | cons a as ih =>
    rw [exec] at h
    by_cases hok : ok s a
    · rw [if_pos hok] at h
      cases hs : step s a with
      | none =>
        rw [hs] at h
        cases h
      | some u =>
        rw [hs] at h
        exact .cons hok hs (ih h)
    · rw [if_neg hok] at h
      cases h

/-- A run that ends in a state with the property `p`, found by evaluation. -/
theorem exists_of_exec [∀ s a, Decidable (ok s a)] {p : σ → Bool}
    (h : (exec step ok s as).map p = some true) : ∃ t, Run step ok s as t ∧ p t = true := by
  cases he : exec step ok s as with
  | none =>
    rw [he] at h
    cases h
  | some t =>
    rw [he] at h
    exact ⟨t, of_exec he, Option.some.inj h⟩

theorem invariant {I : σ → Prop}
    (hstep : ∀ s a t, I s → ok s a → step s a = some t → I t)
    (hr : Run step ok s as t) (hs : I s) : I t := by
  induction hr with
  | nil => exact hs
  | cons hok hst _ ih => exact ih (hstep _ _ _ hs hok hst)

/-- An invariant that also speaks of the actions so far. -/
theorem invariant_history {I : List α → σ → Prop}
    (hstep : ∀ past s a t, I past s → ok s a → step s a = some t → I (past ++ [a]) t)
    (hr : Run step ok s as t) (hs : I [] s) : I as t := by
  have hpast : ∀ past, I past s → I (past ++ as) t := by
    clear hs
    induction hr with
    | nil =>
      intro past hi
      rw [List.append_nil]
      exact hi
    | @cons s u t a as hok hst _ ih =>
      intro past hi
      have hmore := ih (past ++ [a]) (hstep past s a u hi hok hst)
      rwa [List.append_assoc] at hmore
  exact hpast [] hs

/-- A run under a condition is a run under a weaker one. -/
theorem mono (h : ∀ s a, ok s a → ok' s a) (hr : Run step ok s as t) : Run step ok' s as t := by
  induction hr with
  | nil s => exact .nil s
  | cons hok hs _ ih => exact .cons (h _ _ hok) hs ih

/-- A measure that falls at the actions `p`, and that no other action raises, bounds their
number. -/
theorem countP_le {I : σ → Prop} {p : α → Bool} {μ : σ → Nat}
    (hinv : ∀ s a t, I s → ok s a → step s a = some t → I t)
    (hfall : ∀ s a t, I s → ok s a → step s a = some t → p a = true → μ t < μ s)
    (hother : ∀ s a t, I s → ok s a → step s a = some t → p a = false → μ t ≤ μ s)
    (hr : Run step ok s as t) (hs : I s) : as.countP p + μ t ≤ μ s := by
  induction hr with
  | nil => simp
  | @cons s u t a as hok hst hr ih =>
    have hrest := ih (hinv s a u hs hok hst)
    cases hp : p a with
    | true =>
      have := hfall s a u hs hok hst hp
      rw [List.countP_cons_of_pos hp]
      omega
    | false =>
      have := hother s a u hs hok hst hp
      rw [List.countP_cons_of_neg (by rw [hp]; decide)]
      omega

/-- One more step at the end. -/
theorem snoc {u : σ} {a : α} (hr : Run step ok s as t) (hok : ok t a) (hs : step t a = some u) :
    Run step ok s (as ++ [a]) u := by
  induction hr with
  | nil s => exact .cons hok hs (.nil u)
  | cons hok' hs' _ ih => exact .cons hok' hs' (ih hok hs)

end Run

/-! ## Every step of a run -/

/-- Every step of the run satisfies `P`, which is stated on the state before it. -/
def Along (step : σ → α → Option σ) (P : σ → α → Prop) : σ → List α → Prop
  | _, [] => True
  | s, a :: as => P s a ∧ ∀ t ∈ step s a, Along step P t as

instance decidableAlong (step : σ → α → Option σ) (P : σ → α → Prop)
    [∀ s a, Decidable (P s a)] : (s : σ) → (as : List α) → Decidable (Along step P s as)
  | _, [] => .isTrue trivial
  | s, a :: as =>
    have : ∀ t, Decidable (Along step P t as) := fun t => decidableAlong step P t as
    inferInstanceAs (Decidable (P s a ∧ ∀ t ∈ step s a, Along step P t as))

namespace Along

variable {step : σ → α → Option σ} {P Q : σ → α → Prop} {s : σ} {as : List α}

theorem mono (h : ∀ s a, P s a → Q s a) (hp : Along step P s as) : Along step Q s as := by
  induction as generalizing s with
  | nil => trivial
  | cons a as ih => exact ⟨h s a hp.1, fun t ht => ih (hp.2 t ht)⟩

/-- Conditions that agree in every state agree on every run. -/
theorem congr (h : ∀ s a, P s a ↔ Q s a) : Along step P s as ↔ Along step Q s as :=
  ⟨mono fun s a => (h s a).mp, mono fun s a => (h s a).mpr⟩

/-- A run whose steps are all taken under `P`. -/
theorem of_run {t : σ} (hr : Run step P s as t) : Along step P s as := by
  induction hr with
  | nil => trivial
  | cons hok hs _ ih =>
    refine ⟨hok, fun u hu => ?_⟩
    obtain rfl := Option.some.inj (hs.symm.trans hu)
    exact ih

/-- A run that is in one phase, `I`, until its first step without `P`, and in another one,
`J`, from there on. -/
theorem phases {ok : σ → α → Prop} {I J : σ → Prop} {t : σ}
    (good : ∀ s a t, I s → P s a → step s a = some t → I t)
    (bad : ∀ s a t, I s → ¬ P s a → step s a = some t → J t)
    (stays : ∀ s a t, J s → step s a = some t → J t) (hr : Run step ok s as t) (hi : I s) :
    (Along step P s as → I t) ∧ (¬ Along step P s as → J t) := by
  induction hr with
  | nil => exact ⟨fun _ => hi, fun hn => absurd trivial hn⟩
  | @cons s u t a as hok hs hr ih =>
    by_cases hp : P s a
    · obtain ⟨hgood, hbad⟩ := ih (good _ _ _ hi hp hs)
      refine ⟨fun h => hgood (h.2 u hs), fun hn => hbad fun h => hn ⟨hp, fun v hv => ?_⟩⟩
      obtain rfl := Option.some.inj (hs.symm.trans hv)
      exact h
    · refine ⟨fun h => absurd h.1 hp, fun _ => ?_⟩
      exact hr.invariant (fun s a t hj _ hst => stays s a t hj hst) (bad _ _ _ hi hp hs)

end Along

end Transition
