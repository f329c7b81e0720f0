/-
Majorities of a list of members.

`Majority ids p` says that more than half of the members satisfy `p`.  Two
majorities share a member, which is all that elections and commits need.  The entry
in the middle of a sorted list is reached by half of the list, and no larger value is.
-/
import Mathlib.Data.List.Count
import Mathlib.Data.List.Sort
import Mathlib.Order.Bounds.Defs

namespace Quorum

variable {α : Type}

def Majority (ids : List α) (p : α → Bool) : Prop := ids.length / 2 < ids.countP p

theorem Majority.mono {ids : List α} {p q : α → Bool} (hp : Majority ids p)
    (h : ∀ x ∈ ids, p x = true → q x = true) : Majority ids q :=
  Nat.lt_of_lt_of_le hp (List.countP_mono_left h)

theorem countP_add_countP_le {p q : α → Bool} (ids : List α)
    (h : ∀ x ∈ ids, ¬ (p x = true ∧ q x = true)) :
    ids.countP p + ids.countP q ≤ ids.length := by
  induction ids with
  | nil => exact Nat.le_refl 0
  | cons x xs ih =>
    have hx := h x List.mem_cons_self
    have hxs := ih fun y hy => h y (List.mem_cons_of_mem x hy)
    rw [List.countP_cons, List.countP_cons, List.length_cons]
    by_cases hp : p x = true
    · have hq : ¬ q x = true := fun hq => hx ⟨hp, hq⟩
      rw [if_pos hp, if_neg hq]
      omega
    · rw [if_neg hp]
      split <;> omega

/-- Two majorities of one membership share a member. -/
theorem Majority.meet {ids : List α} {p q : α → Bool} (hp : Majority ids p)
    (hq : Majority ids q) : ∃ x ∈ ids, p x = true ∧ q x = true := by
  by_contra hne
  have hdisj : ∀ x ∈ ids, ¬ (p x = true ∧ q x = true) := fun x hx h => hne ⟨x, hx, h⟩
  have hle := countP_add_countP_le ids hdisj
  unfold Majority at hp hq
  omega

/-- One more member satisfies `q` than satisfied `p`. -/
theorem countP_lt_of_new {p q : α → Bool} {ids : List α} {a : α} (ha : a ∈ ids)
    (h : ∀ x ∈ ids, p x = true → q x = true) (hp : p a = false) (hq : q a = true) :
    ids.countP p + 1 ≤ ids.countP q := by
  induction ids with
  | nil => cases ha
  | cons x xs ih =>
    have hxs : xs.countP p ≤ xs.countP q :=
      List.countP_mono_left fun y hy => h y (List.mem_cons_of_mem x hy)
    have hx := h x List.mem_cons_self
    rw [List.countP_cons, List.countP_cons]
    rcases List.mem_cons.mp ha with rfl | ha
    · rw [if_neg (by simp [hp]), if_pos hq]
      omega
    · have ihxs := ih ha fun y hy => h y (List.mem_cons_of_mem x hy)
      by_cases hpx : p x = true
      · rw [if_pos hpx, if_pos (hx hpx)]
        omega
      · rw [if_neg hpx]
        omega

/-! ## The middle of a sorted list -/

theorem le_countP_of_sorted {xs : List Int} (hs : xs.Pairwise (· ≤ ·)) {k : Nat} {v : Int}
    (hv : xs[k]? = some v) : xs.length - k ≤ xs.countP fun x => decide (v ≤ x) := by
  obtain ⟨hk, rfl⟩ := List.getElem?_eq_some_iff.mp hv
  have hall : ∀ x ∈ xs.drop k, decide (xs[k] ≤ x) = true := by
    intro x hx
    obtain ⟨j, hj, rfl⟩ := List.mem_iff_getElem.mp hx
    rw [List.getElem_drop, decide_eq_true_iff]
    rcases Nat.eq_zero_or_pos j with rfl | hpos
    · exact Int.le_refl _
    · exact List.pairwise_iff_getElem.mp hs k (k + j) hk _ (by omega)
  calc xs.length - k = (xs.drop k).length := List.length_drop.symm
    _ = (xs.drop k).countP fun x => decide (xs[k] ≤ x) := (List.countP_eq_length.mpr hall).symm
    _ ≤ xs.countP fun x => decide (xs[k] ≤ x) := (List.drop_sublist k xs).countP_le

/-- At least half of a list, rounded up, reaches the value in its middle. -/
theorem le_countP_middle (xs : List Int) (hne : xs ≠ []) :
    xs.length - xs.length / 2 ≤ xs.countP fun x =>
      decide ((xs.insertionSort (· ≤ ·)).getD (xs.length / 2) 0 ≤ x) := by
  have hperm := List.perm_insertionSort (· ≤ ·) xs
  have hlen := hperm.length_eq
  have hpos := List.length_pos_of_ne_nil hne
  have hk : xs.length / 2 < (xs.insertionSort (· ≤ ·)).length := by omega
  rw [← hperm.countP_eq, List.getD_eq_getElem?_getD, List.getElem?_eq_getElem hk,
    Option.getD_some]
  have hle := le_countP_of_sorted (List.pairwise_insertionSort (· ≤ ·) xs)
    (List.getElem?_eq_getElem hk)
  omega

theorem countP_lt_of_sorted {xs : List Int} (hs : xs.Pairwise (· ≤ ·)) {k : Nat} {v w : Int}
    (hv : xs[k]? = some v) (hw : v < w) :
    xs.countP (fun x => decide (w ≤ x)) < xs.length - k := by
  obtain ⟨hk, rfl⟩ := List.getElem?_eq_some_iff.mp hv
  have hnone : ∀ x ∈ xs.take (k + 1), ¬ decide (w ≤ x) = true := by
    intro x hx
    obtain ⟨j, hj, rfl⟩ := List.mem_iff_getElem.mp hx
    rw [List.getElem_take, decide_eq_true_iff]
    have hjk : j ≤ k := by
      have hlt := List.length_take_le (k + 1) xs
      omega
    have hle : xs[j] ≤ xs[k] := by
      rcases Nat.lt_or_eq_of_le hjk with hlt | rfl
      · exact List.pairwise_iff_getElem.mp hs j k (by omega) hk hlt
      · exact Int.le_refl _
    omega
  have hsplit := congrArg (List.countP fun x => decide (w ≤ x)) (List.take_append_drop (k + 1) xs)
  rw [List.countP_append, List.countP_eq_zero.mpr hnone, Nat.zero_add] at hsplit
  have hle := List.countP_le_length (p := fun x => decide (w ≤ x)) (l := xs.drop (k + 1))
  rw [List.length_drop] at hle
  omega

/-- The value in the middle is the greatest one that half of a list, rounded up,
reaches. -/
theorem middle_isGreatest (xs : List Int) (hne : xs ≠ []) :
    IsGreatest {v | xs.length - xs.length / 2 ≤ xs.countP fun x => decide (v ≤ x)}
      ((xs.insertionSort (· ≤ ·)).getD (xs.length / 2) 0) := by
  refine ⟨le_countP_middle xs hne, fun v hv => ?_⟩
  by_contra hlt
  have hperm := List.perm_insertionSort (· ≤ ·) xs
  have hlen := hperm.length_eq
  have hpos := List.length_pos_of_ne_nil hne
  have hk : xs.length / 2 < (xs.insertionSort (· ≤ ·)).length := by omega
  rw [List.getD_eq_getElem?_getD, List.getElem?_eq_getElem hk, Option.getD_some] at hlt
  have hfew := countP_lt_of_sorted (List.pairwise_insertionSort (· ≤ ·) xs)
    (List.getElem?_eq_getElem hk) (Int.not_le.mp hlt)
  rw [hperm.countP_eq] at hfew
  have hmany : xs.length - xs.length / 2 ≤ xs.countP fun x => decide (v ≤ x) := hv
  omega

end Quorum
