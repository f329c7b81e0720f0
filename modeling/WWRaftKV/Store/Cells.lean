/-
What a skip list holds.

`Rep s cs` says that the heap of `s` is the list of cells `cs`: sorted by key, on every
level a list of exactly the cells whose height reaches it.
-/
import WWRaftKV.General.Links
import WWRaftKV.Store.SkipList

namespace WWRaftKV

open Linked

/-- A node: its address, the number of its levels, its key and its value. -/
structure Cell (κ ν : Type) where
  addr : Nat
  height : Nat
  key : κ
  value : ν

def Cell.pair {κ ν : Type} (c : Cell κ ν) : κ × ν := (c.key, c.value)

namespace Skiplist

variable {κ ν : Type}

/-! ## Levels -/

/-- The addresses on a level. -/
def level (l : Nat) (cs : List (Cell κ ν)) : List Nat :=
  (cs.filter fun c => l < c.height).map (·.addr)

section Level

variable {l : Nat} {c : Cell κ ν} {cs ds : List (Cell κ ν)}

theorem level_cons_of_lt (h : l < c.height) : level l (c :: cs) = c.addr :: level l cs := by
  simp [level, h]

theorem level_cons_of_le (h : c.height ≤ l) : level l (c :: cs) = level l cs := by
  have hn : ¬ l < c.height := by omega
  simp [level, hn]

theorem level_append : level l (cs ++ ds) = level l cs ++ level l ds := by
  simp [level]

theorem mem_level {a : Nat} : a ∈ level l cs ↔ ∃ c ∈ cs, l < c.height ∧ c.addr = a := by
  simp [level, and_assoc]

theorem level_sublist : (level l cs).Sublist (cs.map (·.addr)) :=
  List.filter_sublist.map _

theorem length_level_le (l : Nat) (cs : List (Cell κ ν)) : (level l cs).length ≤ cs.length := by
  rw [level, List.length_map]
  exact List.length_filter_le _ _

theorem level_eq_nil (h : ∀ c ∈ cs, c.height ≤ l) : level l cs = [] := by
  rw [level, List.map_eq_nil_iff, List.filter_eq_nil_iff]
  intro c hc
  have hle := h c hc
  simpa using hle

/-- Every cell is on level 0. -/
theorem level_zero (h : ∀ c ∈ cs, 0 < c.height) : level 0 cs = cs.map (·.addr) := by
  rw [level, List.filter_eq_self.mpr]
  intro c hc
  simpa using h c hc

end Level

/-! ## Reads and writes -/

/-- What the writes of pointers leave alone: the pair of a node and its number of levels. -/
def shape (s : Skiplist κ ν) (a : Nat) : Option ((κ × ν) × Nat) :=
  (s.heap a).map fun node => (node.data, node.forward.length)

section Heap

variable {s : Skiplist κ ν} {a p l k : Nat} {d : κ × ν} {h : Nat} {q : Option Nat}

theorem forward_eq (s : Skiplist κ ν) (a l : Nat) :
    s.forward a l = (s.heap a).bind (·.forward[l]?) := rfl

theorem data_of_shape (hs : s.shape a = some (d, h)) : s.data a = some d := by
  obtain ⟨node, hn, he⟩ := Option.map_eq_some_iff.mp hs
  simp only [data, hn, Option.map_some]
  exact congrArg some (congrArg Prod.fst he)

theorem forward_isSome_iff :
    (s.forward a l).isSome = true ↔ ∃ d h, s.shape a = some (d, h) ∧ l < h := by
  simp only [forward_eq, shape]
  cases s.heap a with
  | none => simp
  | some node => simp

theorem forward_isSome (hs : s.shape a = some (d, h)) (hl : l < h) :
    (s.forward a l).isSome = true := forward_isSome_iff.mpr ⟨d, h, hs, hl⟩

@[simp] theorem store_head : (s.store p l q).head = s.head := rfl

@[simp] theorem store_shape : (s.store p l q).shape = s.shape := by
  funext a
  simp only [shape, store]
  by_cases ha : a = p
  · subst ha
    rw [Function.update_self, Option.map_map]
    cases s.heap a with
    | none => rfl
    | some node => simp
  · rw [Function.update_of_ne ha]

theorem store_forward_self (hf : (s.forward p l).isSome = true) :
    (s.store p l q).forward p l = some q := by
  rw [forward_eq] at hf
  cases hn : s.heap p with
  | none =>
    rw [hn] at hf
    cases hf
  | some node =>
    rw [hn, Option.bind_some] at hf
    have hlt : l < node.forward.length := by simpa using hf
    simp [forward_eq, store, hn, hlt]

theorem store_forward_of_ne (hne : a ≠ p ∨ k ≠ l) :
    (s.store p l q).forward a k = s.forward a k := by
  rw [forward_eq, forward_eq, store]
  by_cases ha : a = p
  · subst ha
    have hk : l ≠ k := fun he => hne.elim (fun h => h rfl) fun h => h he.symm
    simp only [Function.update_self]
    cases s.heap a with
    | none => rfl
    | some node => simp [List.getElem?_set_ne hk]
  · simp only [Function.update_of_ne ha]

theorem setForward_eq (hf : (s.forward p l).isSome = true) :
    s.setForward p l q = some (s.store p l q) := if_pos hf

end Heap

/-! ## The list of cells -/

/-- The nodes in the heap. -/
structure Nodes (s : Skiplist κ ν) (cs : List (Cell κ ν)) : Prop where
  head : ∃ d, s.shape s.head = some (d, s.maxLevelIndex + 1)
  nodes : ∀ c ∈ cs, s.shape c.addr = some (c.pair, c.height)
  distinct : (s.head :: cs.map (·.addr)).Nodup
  live : ∀ a, (s.shape a).isSome = true → a ∈ s.head :: cs.map (·.addr)
  old : ∀ a ∈ s.head :: cs.map (·.addr), a < s.fresh

/-- The order and the levels. -/
structure Rep [LinearOrder κ] (s : Skiplist κ ν) (cs : List (Cell κ ν)) : Prop
    extends s.Nodes cs where
  links : ∀ l ≤ s.maxLevelIndex, Links (s.forward · l) s.head (level l cs) none
  sorted : cs.Pairwise fun c d => c.key < d.key
  positive : ∀ c ∈ cs, 0 < c.height
  low : ∀ c ∈ cs, c.height ≤ s.currentLevelIndex + 1
  top : s.currentLevelIndex = 0 ∨ ∃ c ∈ cs, c.height = s.currentLevelIndex + 1
  bound : s.currentLevelIndex ≤ s.maxLevelIndex
  size : s.size = cs.length

section Rep

variable {s : Skiplist κ ν} {cs pre post : List (Cell κ ν)} {c : Cell κ ν} {l : Nat}

theorem Nodes.data (h : s.Nodes cs) (hc : c ∈ cs) : s.data c.addr = some c.pair :=
  data_of_shape (h.nodes c hc)

theorem Nodes.distinct_level (h : s.Nodes cs) (l : Nat) : (s.head :: level l cs).Nodup :=
  h.distinct.sublist (level_sublist.cons_cons _)

/-- The node in front of `post` on level `l`. -/
def before (s : Skiplist κ ν) (pre : List (Cell κ ν)) (l : Nat) : Nat :=
  (level l pre).getLastD s.head

theorem before_mem (s : Skiplist κ ν) (pre : List (Cell κ ν)) (l : Nat) :
    s.before pre l ∈ s.head :: level l pre := List.getLastD_mem_cons

variable [LinearOrder κ]

theorem Rep.height_le (h : s.Rep cs) (hc : c ∈ cs) : c.height ≤ s.maxLevelIndex + 1 := by
  have hl := h.low c hc
  have hb := h.bound
  omega

/-- The pointer in front of `post` on level `l`. -/
theorem Rep.forward_before (h : s.Rep (pre ++ post)) (hl : l ≤ s.maxLevelIndex) :
    s.forward (s.before pre l) l = some (level l post).head? := by
  have hlinks := h.links l hl
  rw [level_append] at hlinks
  have hf := (links_append.mp hlinks).1.last
  rw [Option.or_none] at hf
  exact hf

theorem Rep.forward_before_isSome (h : s.Rep (pre ++ post)) (hl : l ≤ s.maxLevelIndex) :
    (s.forward (s.before pre l) l).isSome = true := by
  rw [h.forward_before hl]
  rfl

end Rep

end Skiplist

end WWRaftKV
