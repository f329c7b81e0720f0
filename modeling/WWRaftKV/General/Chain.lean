/-
Singly linked lists whose links lie in the listed objects.

The memory maps words to objects, and the link of an object is the word in its slot.  The
pointer to a list is the first object of it, or null.  An object that is on no list owns its
slot, and whoever has the object may write there.
-/
import Mathlib.Data.List.Basic
import Mathlib.Logic.Function.Basic

namespace WWRaftKV

namespace Chained

variable {ω α ι : Type}

/-! ## One list -/

/-- The links lead through the list to the end. -/
def Chain (slot : α → ω) (null : α) (m : ω → α) : List α → Prop
  | [] => True
  | x :: l => x ≠ null ∧ m (slot x) = l.headD null ∧ Chain slot null m l

section Chain

variable {slot : α → ω} {null : α} {m m' : ω → α} {l : List α}

/-- Null is the pointer to the empty list only. -/
theorem Chain.head_eq_null_iff (h : Chain slot null m l) : l.headD null = null ↔ l = [] := by
  cases l with
  | nil => exact iff_of_true rfl rfl
  | cons x l => exact iff_of_false h.1 (List.cons_ne_nil _ _)

theorem Chain.congr (hm : ∀ x ∈ l, m' (slot x) = m (slot x)) (h : Chain slot null m l) :
    Chain slot null m' l := by
  induction l with
  | nil => trivial
  | cons x l ih =>
    obtain ⟨hne, hlink, hrest⟩ := h
    refine ⟨hne, (hm x List.mem_cons_self).trans hlink, ?_⟩
    exact ih (fun y hy => hm y (List.mem_cons_of_mem _ hy)) hrest

theorem Chain.suffix {l' : List α} (h : Chain slot null m l) (hl : l' <:+ l) :
    Chain slot null m l' := by
  obtain ⟨front, rfl⟩ := hl
  induction front with
  | nil => exact h
  | cons x front ih => exact ih h.2.2

end Chain

/-! ## Many lists -/

/-- The lists `g` are in memory, and no two of their objects share a slot.  The words `F`
belong to others, and they are as they were in `m₀`. -/
structure Chains (slot : α → ω) (null : α) (F : ω → Prop) (m₀ m : ω → α) (g : ι → List α) :
    Prop where
  chain : ∀ i, Chain slot null m (g i)
  nodup : ∀ i, ((g i).map slot).Nodup
  apart : ∀ i j, i ≠ j → ∀ x ∈ g i, ∀ y ∈ g j, slot x ≠ slot y
  off : ∀ i, ∀ x ∈ g i, ¬ F (slot x)
  frame : ∀ w, F w → m w = m₀ w

/-- The word is of no object on a list, and it is not of the others. -/
def Unused (slot : α → ω) (F : ω → Prop) (g : ι → List α) (w : ω) : Prop :=
  ¬ F w ∧ ∀ i, ∀ x ∈ g i, slot x ≠ w

namespace Chains

variable {slot : α → ω} {null : α} {F G : ω → Prop} {m₀ m : ω → α} {g g' : ι → List α}

/-- Lists that are empty are in any memory. -/
theorem of_nil (hg : ∀ i, g i = []) (hF : ∀ w, F w → m w = m₀ w) :
    Chains slot null F m₀ m g := by
  constructor
  case chain =>
    intro i
    rw [hg]
    trivial
  case nodup =>
    intro i
    rw [hg]
    exact List.nodup_nil
  case apart =>
    intro i j _ x hx
    rw [hg] at hx
    exact absurd hx List.not_mem_nil
  case off =>
    intro i x hx
    rw [hg] at hx
    exact absurd hx List.not_mem_nil
  case frame => exact hF

/-- Objects may be given up from the front on. -/
theorem suffix (h : Chains slot null F m₀ m g) (hg : ∀ i, g' i <:+ g i) :
    Chains slot null F m₀ m g' where
  chain := fun i => (h.chain i).suffix (hg i)
  nodup := fun i => (h.nodup i).sublist ((hg i).sublist.map slot)
  apart := fun i j hij x hx y hy => h.apart i j hij x ((hg i).subset hx) y ((hg j).subset hy)
  off := fun i x hx => h.off i x ((hg i).subset hx)
  frame := h.frame

/-- Lists may be given up. -/
theorem shrink (h : Chains slot null F m₀ m g) (hg : ∀ i, g' i = g i ∨ g' i = []) :
    Chains slot null F m₀ m g' := by
  apply h.suffix
  intro i
  rcases hg i with hi | hi
  · exact hi ▸ List.suffix_refl _
  · rw [hi]
    exact List.nil_suffix

/-- Other words are looked at from now on. -/
theorem guard (h : Chains slot null F m₀ m g) (hG : ∀ i, ∀ x ∈ g i, ¬ G (slot x)) :
    Chains slot null G m m g where
  chain := h.chain
  nodup := h.nodup
  apart := h.apart
  off := hG
  frame := fun _ _ => rfl

section Moves

variable {w : ω} {v : α} {i j : ι} {x : α} {l : List α}

/-- A word of nobody is written. -/
theorem write [DecidableEq ω] (h : Chains slot null F m₀ m g) (hw : Unused slot F g w) :
    Chains slot null F m₀ (Function.update m w v) g where
  chain := fun i => (h.chain i).congr fun x hx => Function.update_of_ne (hw.2 i x hx) ..
  nodup := h.nodup
  apart := h.apart
  off := h.off
  frame := by
    intro w' hw'
    rw [Function.update_of_ne]
    · exact h.frame w' hw'
    · rintro rfl
      exact hw.1 hw'

variable [DecidableEq ι]

/-- The first object of a list is taken. -/
theorem pop (h : Chains slot null F m₀ m g) (hi : g i = x :: l) :
    m (slot x) = l.headD null ∧ x ≠ null ∧ Chains slot null F m₀ m (Function.update g i l) ∧
      Unused slot F (Function.update g i l) (slot x) := by
  have hchain := h.chain i
  have hnodup := h.nodup i
  rw [hi] at hchain hnodup
  have hmem : x ∈ g i := by
    rw [hi]
    exact List.mem_cons_self
  have hsub : ∀ j, Function.update g i l j <:+ g j := by
    intro j
    by_cases hj : j = i
    · subst hj
      rw [Function.update_self, hi]
      exact List.suffix_cons x l
    · have hsame : Function.update g i l j = g j := Function.update_of_ne hj ..
      exact hsame ▸ List.suffix_refl _
  refine ⟨hchain.2.1, hchain.1, h.suffix hsub, h.off i x hmem, ?_⟩
  intro j y hy hsame
  by_cases hj : j = i
  · subst hj
    rw [Function.update_self] at hy
    apply (List.nodup_cons.mp hnodup).1
    rw [← hsame]
    exact List.mem_map_of_mem hy
  · exact h.apart j i hj y ((hsub j).subset hy) x hmem hsame

theorem unused_push (hw : Unused slot F g w) (hne : slot x ≠ w) :
    Unused slot F (Function.update g i (x :: g i)) w := by
  refine ⟨hw.1, ?_⟩
  intro j y hy
  by_cases hj : j = i
  · subst hj
    rw [Function.update_self] at hy
    rcases List.mem_cons.mp hy with rfl | hy
    · exact hne
    · exact hw.2 j y hy
  · rw [Function.update_of_ne hj] at hy
    exact hw.2 j y hy

variable [DecidableEq ω]

/-- An object that is on no list is put before one. -/
theorem push (h : Chains slot null F m₀ m g) (hne : x ≠ null) (hx : Unused slot F g (slot x)) :
    Chains slot null F m₀ (Function.update m (slot x) ((g i).headD null))
      (Function.update g i (x :: g i)) := by
  have hw := h.write (v := (g i).headD null) hx
  constructor
  case chain =>
    intro j
    by_cases hj : j = i
    · rw [hj, Function.update_self]
      exact ⟨hne, Function.update_self .., hw.chain i⟩
    · rw [Function.update_of_ne hj]
      exact hw.chain j
  case nodup =>
    intro j
    by_cases hj : j = i
    · rw [hj, Function.update_self, List.map_cons, List.nodup_cons]
      refine ⟨?_, h.nodup i⟩
      intro hmem
      obtain ⟨y, hy, hsame⟩ := List.mem_map.mp hmem
      exact hx.2 i y hy hsame
    · rw [Function.update_of_ne hj]
      exact h.nodup j
  case apart =>
    intro j k hjk y hy z hz
    by_cases hj : j = i
    · subst hj
      rw [Function.update_self] at hy
      rw [Function.update_of_ne (Ne.symm hjk)] at hz
      rcases List.mem_cons.mp hy with rfl | hy
      · exact Ne.symm (hx.2 k z hz)
      · exact h.apart j k hjk y hy z hz
    · rw [Function.update_of_ne hj] at hy
      by_cases hk : k = i
      · subst hk
        rw [Function.update_self] at hz
        rcases List.mem_cons.mp hz with rfl | hz
        · exact hx.2 j y hy
        · exact h.apart j k hjk y hy z hz
      · rw [Function.update_of_ne hk] at hz
        exact h.apart j k hjk y hy z hz
  case off =>
    intro j y hy
    by_cases hj : j = i
    · subst hj
      rw [Function.update_self] at hy
      rcases List.mem_cons.mp hy with rfl | hy
      · exact hx.1
      · exact h.off j y hy
    · rw [Function.update_of_ne hj] at hy
      exact h.off j y hy
  case frame => exact hw.frame

/-- The first object of one list is put before another one. -/
theorem shift (h : Chains slot null F m₀ m g) (hij : i ≠ j) (hi : g i = x :: l) :
    m (slot x) = l.headD null ∧
      Chains slot null F m₀ (Function.update m (slot x) ((g j).headD null))
        (Function.update (Function.update g i l) j (x :: g j)) := by
  obtain ⟨hlink, hne, hpop, hx⟩ := h.pop hi
  have hpush := hpop.push (i := j) hne hx
  rw [Function.update_of_ne (Ne.symm hij)] at hpush
  exact ⟨hlink, hpush⟩

end Moves

end Chains

end Chained

end WWRaftKV
