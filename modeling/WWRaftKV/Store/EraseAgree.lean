/-
The two ways to erase a key.

The pointers of a level and the node that is taken out of it determine the pointers that
are left.  So the two `erase`, which find the node in front of it in different ways, leave
the same heap behind.
-/
import WWRaftKV.Store.Refine

namespace WWRaftKV

open Linked SortedMap

namespace Skiplist

variable {κ ν : Type}

/-! ## The heap that is left -/

section Same

variable {s s' t : Skiplist κ ν} {p : Nat} {U : Nat → Nat} {A : Nat → Prop}

/-- The shape and the pointers of a node are the node. -/
theorem heap_ext {a : Nat} (hshape : s.shape a = t.shape a)
    (hforward : ∀ l, s.forward a l = t.forward a l) : s.heap a = t.heap a := by
  simp only [forward_eq] at hforward
  simp only [shape] at hshape
  cases hs : s.heap a with
  | none =>
    rw [hs, Option.map_none] at hshape
    exact (Option.map_eq_none_iff.mp hshape.symm).symm
  | some node =>
    rw [hs, Option.map_some] at hshape
    obtain ⟨node', ht, hsame⟩ := Option.map_eq_some_iff.mp hshape.symm
    obtain ⟨hdata, -⟩ := Prod.mk.inj hsame
    have hlist : node'.forward = node.forward := by
      refine List.ext_getElem? fun l => ?_
      have hl := hforward l
      rw [hs, ht] at hl
      exact hl.symm
    rw [ht]
    cases node
    cases node'
    cases hdata
    cases hlist
    rfl

/-- There is one way to take a node out. -/
theorem Unlinking.unique (h : Unlinking s s' p U A) (h' : Unlinking s t p U A) : s' = t := by
  have hheap : s'.heap = t.heap := by
    funext a
    refine heap_ext ?_ fun l => ?_
    · rw [h.shape, h'.shape]
    · by_cases ha : A l ∧ a = U l
      · obtain ⟨hl, rfl⟩ := ha
        rw [h.prev l hl, h'.prev l hl]
      · have hne : A l → a ≠ U l := fun hl he => ha ⟨hl, he⟩
        rw [h.other a l hne, h'.other a l hne]
  have hfresh := h.fresh.trans h'.fresh.symm
  have hhead := h.head.trans h'.head.symm
  have hmax := h.maxLevelIndex.trans h'.maxLevelIndex.symm
  have hcur := h.currentLevelIndex.trans h'.currentLevelIndex.symm
  have hsize := h.size.trans h'.size.symm
  cases s'
  cases t
  cases hheap
  cases hfresh
  cases hhead
  cases hmax
  cases hcur
  cases hsize
  rfl

end Same

/-! ## The element behind -/

variable [LinearOrder κ] {s t : Skiplist κ ν} {c : Cell κ ν} {cs pre post : List (Cell κ ν)}
  {key : κ}

/-- The iterator points at the element with the least key above `key`, or is `end()` when
there is none. -/
def PointsAbove (t : Skiplist κ ν) (cs : List (Cell κ ν)) (key : κ) : Option Nat → Prop
  | none => ∀ e ∈ cs, e.key ≤ key
  | some q => ∃ d ∈ cs, t.data q = some d.pair ∧ key < d.key ∧
      ∀ e ∈ cs, key < e.key → d.key ≤ e.key

theorem Rep.pointsAbove (h : s.Rep (pre ++ c :: post)) (ht : t.Rep (pre ++ post)) :
    t.PointsAbove (pre ++ c :: post) c.key (post.head?.map (·.addr)) := by
  obtain ⟨-, hpost, hpre⟩ := List.pairwise_append.mp h.sorted
  obtain ⟨hc, hsorted⟩ := List.pairwise_cons.mp hpost
  have hlow : ∀ e ∈ pre, e.key < c.key := fun e he => hpre e he c List.mem_cons_self
  cases post with
  | nil =>
    intro e he
    rcases List.mem_append.mp he with he | he
    · exact le_of_lt (hlow e he)
    · rw [List.mem_singleton.mp he]
  | cons d post =>
    have hd : d ∈ pre ++ d :: post := List.mem_append_right _ List.mem_cons_self
    refine ⟨d, ?_, ht.data hd, hc d List.mem_cons_self, fun e he hlt => ?_⟩
    · exact List.mem_append_right _ (List.mem_cons_of_mem _ List.mem_cons_self)
    · rcases List.mem_append.mp he with he | he
      · exact absurd hlt (lt_asymm (hlow e he))
      rcases List.mem_cons.mp he with rfl | he
      · exact absurd hlt (lt_irrefl _)
      rcases List.mem_cons.mp he with rfl | he
      · exact le_rfl
      · exact le_of_lt ((List.pairwise_cons.mp hsorted).1 e he)

/-- For a key of the list, `erase(find(key))` and `erase(key)` leave the same list, node by
node, and the first returns the element behind. -/
theorem eraseAt_find_eq_eraseKey (h : s.Rep cs) (hkey : ∃ c ∈ cs, c.key = key) :
    ∃ p next t, s.findNode key = some (some p) ∧ s.eraseAt (some p) = some (next, t) ∧
      s.eraseKey key = some (1, t) ∧ t.PointsAbove cs key next := by
  obtain ⟨pre, post, rfl, hcut⟩ := exists_cut h.sorted key
  obtain ⟨c, hc, hck⟩ := hkey
  have hpost : c ∈ post := by
    rcases List.mem_append.mp hc with hc | hc
    · exact absurd (hcut.smaller c hc) (by rw [hck]; exact lt_irrefl _)
    · exact hc
  cases post with
  | nil => cases hpost
  | cons d post =>
    have hd : d.key = key := by
      rcases List.mem_cons.mp hpost with rfl | hmem
      · exact hck
      · have hlt := (List.pairwise_cons.mp (List.pairwise_append.mp h.sorted).2.1).1 c hmem
        have hle := hcut.rest d List.mem_cons_self
        rw [hck] at hlt
        exact absurd hlt (not_lt.mpr hle)
    obtain ⟨s₁, hu₁, hkeyed⟩ := h.eraseKey_unlinks hcut hd
    obtain ⟨s₂, hu₂, hat⟩ := h.eraseAt_unlinks
    obtain rfl := hu₁.unique hu₂
    obtain ⟨t, hfin, ht⟩ := h.finishErase hu₁
    refine ⟨d.addr, post.head?.map (·.addr), t, ?_, ?_, ?_, ?_⟩
    · rw [h.findNode hcut, atCut_self hd]
      rfl
    · rw [hat, hfin]
      rfl
    · rw [hkeyed, hfin]
      rfl
    · rw [← hd]
      exact h.pointsAbove ht

/-- Two keys put into an empty list of three levels.  The iterator points at the second. -/
theorem eraseAt_find_eq_eraseKey_two :
    ∃ (s : Skiplist Nat Nat) (cs : List (Cell Nat Nat)) (p : Nat) (next : Option Nat)
      (t : Skiplist Nat Nat), cs.map Cell.pair = [(1, 7), (2, 8)] ∧
        s.findNode 1 = some (some p) ∧ s.eraseAt (some p) = some (next, t) ∧
          s.eraseKey 1 = some (1, t) ∧ t.PointsAbove cs 1 next := by
  have h₀ : (make 3 : Skiplist Nat Nat).Rep ([] ++ []) := make_rep 2
  obtain ⟨c, s, -, hc, h₁⟩ :=
    h₀.insert_absent (show Cuts 1 [] [] from ⟨by simp, by simp⟩) rfl 7 [true]
  have hkey : c.key = 1 := congrArg Prod.fst hc
  have h₁' : s.Rep ([c] ++ []) := h₁
  obtain ⟨d, t, -, hd, h₂⟩ := h₁'.insert_absent (show Cuts 2 [c] [] from
    ⟨fun e he => by rw [List.mem_singleton.mp he, hkey]; decide, by simp⟩) rfl 8 []
  obtain ⟨p, next, t', hfind, hat, hkeyed, hnext⟩ :=
    eraseAt_find_eq_eraseKey h₂ ⟨c, by simp, hkey⟩
  refine ⟨t, _, p, next, t', ?_, hfind, hat, hkeyed, hnext⟩
  show [c.pair, d.pair] = _
  rw [hc, hd]

end Skiplist

end WWRaftKV
