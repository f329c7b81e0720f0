/-
Lists that hold exactly the items with a property.

An item moves from one list to another, and the properties move with it.
-/
import Mathlib.Data.List.Nodup
import Mathlib.Data.List.Perm.Subperm

namespace WWRaftKV

/-- The list holds every item with the property once, and nothing else. -/
structure Lists {α : Type} (l : List α) (P : α → Prop) : Prop where
  nodup : l.Nodup
  mem : ∀ x, x ∈ l ↔ P x

namespace Lists

variable {α : Type} {l l' : List α} {P P' : α → Prop} {x : α}

theorem of_false (h : ∀ x, ¬ P x) : Lists [] P where
  nodup := List.nodup_nil
  mem := fun x => ⟨fun hx => absurd hx List.not_mem_nil, fun hx => absurd hx (h x)⟩

theorem congr (h : Lists l P) (hP : ∀ x, P' x ↔ P x) : Lists l P' where
  nodup := h.nodup
  mem := fun x => (h.mem x).trans (hP x).symm

theorem perm (h : Lists l P) (hperm : l.Perm l') : Lists l' P where
  nodup := hperm.nodup_iff.mp h.nodup
  mem := fun x => hperm.mem_iff.symm.trans (h.mem x)

theorem cons (h : Lists l P) (hx : ¬ P x) (hP : ∀ y, P' y ↔ y = x ∨ P y) :
    Lists (x :: l) P' where
  nodup := List.nodup_cons.mpr ⟨fun hm => hx ((h.mem x).mp hm), h.nodup⟩
  mem := by
    intro y
    rw [List.mem_cons, h.mem, hP]

theorem tail (h : Lists (x :: l) P) (hP : ∀ y, P' y ↔ P y ∧ y ≠ x) : Lists l P' where
  nodup := (List.nodup_cons.mp h.nodup).2
  mem := by
    intro y
    have hx := (List.nodup_cons.mp h.nodup).1
    rw [hP, ← h.mem, List.mem_cons]
    constructor
    · intro hy
      exact ⟨.inr hy, fun e => hx (e ▸ hy)⟩
    · rintro ⟨hy, hne⟩
      exact hy.resolve_left hne

/-- One item leaves a list whose items are listed by a key. -/
theorem map_erase {β : Type} [BEq β] [LawfulBEq β] {f : β → α} {m : List β} {e : β}
    (h : Lists (m.map f) P) (he : e ∈ m) (hP : ∀ y, P' y ↔ P y ∧ y ≠ f e) :
    Lists ((m.erase e).map f) P' := by
  have hperm : (m.map f).Perm (f e :: (m.erase e).map f) := (List.perm_cons_erase he).map f
  have hfront : Lists (f e :: (m.erase e).map f) P :=
    ⟨hperm.nodup_iff.mp h.nodup, fun x => hperm.mem_iff.symm.trans (h.mem x)⟩
  exact hfront.tail hP

theorem drop (h : Lists l P) (n : Nat) (hP : ∀ y, P' y ↔ P y ∧ y ∉ l.take n) :
    Lists (l.drop n) P' where
  nodup := h.nodup.sublist (List.drop_sublist n l)
  mem := by
    intro y
    have hsplit := List.take_append_drop n l
    have hnodup := h.nodup
    rw [hP, ← h.mem]
    constructor
    · intro hy
      refine ⟨List.mem_of_mem_drop hy, fun ht => ?_⟩
      rw [← hsplit] at hnodup
      exact (List.nodup_append.mp hnodup).2.2 y ht y hy rfl
    · rintro ⟨hy, ht⟩
      rw [← hsplit] at hy
      exact (List.mem_append.mp hy).resolve_left ht

theorem append (h : Lists l P) (h' : Lists l' P') (hdisj : ∀ x, P x → ¬ P' x) :
    Lists (l ++ l') fun x => P x ∨ P' x where
  nodup := List.nodup_append.mpr ⟨h.nodup, h'.nodup, by
    rintro x hx y hy rfl
    exact hdisj x ((h.mem x).mp hx) ((h'.mem x).mp hy)⟩
  mem := by
    intro x
    rw [List.mem_append, h.mem, h'.mem]

theorem reverse (h : Lists l P) : Lists l.reverse P where
  nodup := List.nodup_reverse.mpr h.nodup
  mem := fun x => List.mem_reverse.trans (h.mem x)

/-- The items of a list that are not on a list of some of them. -/
theorem rest [DecidableEq α] (h : Lists l P) (h' : Lists l' P') (hP : ∀ x, P' x → P x) :
    ∃ r, Lists r (fun x => P x ∧ ¬ P' x) ∧ r.length + l'.length = l.length := by
  refine ⟨l.filter (· ∉ l'), ⟨h.nodup.filter _, ?_⟩, ?_⟩
  · intro x
    rw [List.mem_filter, h.mem, decide_eq_true_eq, h'.mem]
  · have hin : (l.filter (· ∈ l')).Perm l' := by
      apply (List.perm_ext_iff_of_nodup (h.nodup.filter _) h'.nodup).mpr
      intro x
      rw [List.mem_filter, decide_eq_true_eq, h.mem, h'.mem]
      exact and_iff_right_of_imp (hP x)
    have hsplit := (List.filter_append_perm (· ∈ l') l).length_eq
    rw [List.length_append, hin.length_eq] at hsplit
    simp only [← decide_not] at hsplit
    omega

/-- Two lists of one length, the one within the other, hold the same. -/
theorem mem_of_length (h : Lists l P) (h' : Lists l' P') (hP : ∀ x, P x → P' x)
    (hlen : l'.length ≤ l.length) (hx : P' x) : P x := by
  have hsub : l.Subperm l' := by
    apply h.nodup.subperm
    intro y hy
    exact (h'.mem y).mpr (hP y ((h.mem y).mp hy))
  have hperm := hsub.perm_of_length_le hlen
  exact (h.mem x).mp (hperm.mem_iff.mpr ((h'.mem x).mpr hx))

end Lists

end WWRaftKV
