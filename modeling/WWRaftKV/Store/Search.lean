/-
The search of the skip list.

On each level the search ends at the last node with a smaller key, whichever level it
came from; so the descent ends where a scan of level 0 would.
-/
import WWRaftKV.Store.Cells

namespace WWRaftKV

open Linked

namespace Skiplist

variable {κ ν : Type} [LinearOrder κ] {s : Skiplist κ ν} {key : κ}

/-- The key cuts the cells in two. -/
structure Cuts (key : κ) (pre post : List (Cell κ ν)) : Prop where
  smaller : ∀ c ∈ pre, c.key < key
  rest : ∀ c ∈ post, key ≤ c.key

section Advance

variable {l p n : Nat} {x : Cell κ ν} {xs ys pre post : List (Cell κ ν)}

theorem Cuts.tail (h : Cuts key (x :: xs) ys) : Cuts key xs ys where
  smaller := by
    intro c hc
    exact h.smaller c (List.mem_cons_of_mem _ hc)
  rest := h.rest

/-- In front of the rest the loop stops. -/
theorem advance_stop (hd : ∀ c ∈ ys, s.data c.addr = some c.pair)
    (hl : Links (s.forward · l) p (level l ys) none) (hk : ∀ c ∈ ys, key ≤ c.key) :
    s.advance key l (n + 1) p = some p := by
  have hf := hl.first
  cases hlev : level l ys with
  | nil =>
    rw [hlev] at hf
    simp only [List.head?_nil, Option.or_none] at hf
    simp [advance, hf]
  | cons a as =>
    rw [hlev] at hf
    simp only [List.head?_cons, Option.some_or] at hf
    have hmem : a ∈ level l ys := by rw [hlev]; exact List.mem_cons_self
    obtain ⟨c, hc, _, rfl⟩ := mem_level.mp hmem
    have hle : ¬ c.pair.1 < key := not_lt.mpr (hk c hc)
    simp [advance, hf, hd c hc, hle]

/-- Over a smaller key the loop goes on. -/
theorem advance_go (hf : s.forward p l = some (some x.addr))
    (hd : s.data x.addr = some x.pair) (hk : x.key < key) :
    s.advance key l (n + 1) p = s.advance key l n x.addr := by
  have hlt : x.pair.1 < key := hk
  simp [advance, hf, hd, hlt]

theorem advance_along (hd : ∀ c ∈ xs ++ ys, s.data c.addr = some c.pair)
    (hl : Links (s.forward · l) p (level l (xs ++ ys)) none) (hk : Cuts key xs ys)
    (hn : xs.length < n) : s.advance key l n p = some ((level l xs).getLastD p) := by
  induction xs generalizing p n with
  | nil =>
    obtain ⟨n, rfl⟩ := Nat.exists_eq_succ_of_ne_zero (by omega : n ≠ 0)
    exact advance_stop hd hl hk.rest
  | cons x xs ih =>
    have hd' : ∀ c ∈ xs ++ ys, s.data c.addr = some c.pair := by
      intro c hc
      exact hd c (List.mem_cons_of_mem _ hc)
    rw [List.length_cons] at hn
    by_cases hx : l < x.height
    · rw [List.cons_append, level_cons_of_lt hx] at hl
      obtain ⟨n, rfl⟩ := Nat.exists_eq_succ_of_ne_zero (by omega : n ≠ 0)
      rw [advance_go hl.1 (hd x List.mem_cons_self) (hk.smaller x List.mem_cons_self),
        level_cons_of_lt hx, List.getLastD_cons]
      exact ih hd' hl.2 hk.tail (by omega)
    · have hx' : x.height ≤ l := by omega
      rw [List.cons_append, level_cons_of_le hx'] at hl
      rw [level_cons_of_le hx']
      exact ih hd' hl hk.tail (by omega)

/-- From the node that the level above has ended at. -/
theorem advance_from_above (hd : ∀ c ∈ xs ++ ys, s.data c.addr = some c.pair)
    (hl : Links (s.forward · l) p (level l (xs ++ ys)) none) (hk : Cuts key xs ys)
    (hn : xs.length < n) :
    s.advance key l n ((level (l + 1) xs).getLastD p) = some ((level l xs).getLastD p) := by
  induction xs generalizing p n with
  | nil => exact advance_along hd hl hk hn
  | cons x xs ih =>
    have hd' : ∀ c ∈ xs ++ ys, s.data c.addr = some c.pair := by
      intro c hc
      exact hd c (List.mem_cons_of_mem _ hc)
    have hn' : xs.length < n := by
      rw [List.length_cons] at hn
      omega
    by_cases hup : l + 1 < x.height
    · -- `x` is on both levels
      rw [List.cons_append, level_cons_of_lt (by omega)] at hl
      rw [level_cons_of_lt hup, level_cons_of_lt (by omega), List.getLastD_cons,
        List.getLastD_cons]
      exact ih hd' hl.2 hk.tail hn'
    by_cases hx : l < x.height
    · -- `x` is on the lower level only
      rw [level_cons_of_le (by omega : x.height ≤ l + 1)]
      by_cases hnil : level (l + 1) xs = []
      · rw [hnil]
        exact advance_along hd hl hk hn
      · -- the start does not matter when there is a node
        obtain ⟨y, zs, hy⟩ := List.exists_cons_of_ne_nil hnil
        have hstart : (level (l + 1) xs).getLastD p = (level (l + 1) xs).getLastD x.addr := by
          rw [hy, List.getLastD_cons, List.getLastD_cons]
        rw [List.cons_append, level_cons_of_lt hx] at hl
        rw [level_cons_of_lt hx, List.getLastD_cons, hstart]
        exact ih hd' hl.2 hk.tail hn'
    · have hx' : x.height ≤ l := by omega
      rw [List.cons_append, level_cons_of_le hx'] at hl
      rw [level_cons_of_le (by omega : x.height ≤ l + 1), level_cons_of_le hx']
      exact ih hd' hl hk.tail hn'

/-! ## The descent -/

theorem Rep.advance (h : s.Rep (pre ++ post)) (hk : Cuts key pre post)
    (hl : l ≤ s.maxLevelIndex) :
    s.advance key l s.rounds (s.before pre (l + 1)) = some (s.before pre l) := by
  apply advance_from_above (fun c hc => h.data hc) (h.links l hl) hk
  have hs := h.size
  rw [List.length_append] at hs
  unfold rounds
  omega

/-- Above the current level there is only the head. -/
theorem Rep.before_above (h : s.Rep (pre ++ post)) (hl : s.currentLevelIndex < l) :
    s.before pre l = s.head := by
  have hnil : level l pre = [] := by
    apply level_eq_nil
    intro c hc
    have hlow := h.low c (List.mem_append_left _ hc)
    omega
  unfold before
  rw [hnil]
  rfl

theorem Rep.descend_from (h : s.Rep (pre ++ post)) (hk : Cuts key pre post)
    (hl : l ≤ s.maxLevelIndex) :
    s.descend key l (s.before pre (l + 1)) = some (s.before pre 0) := by
  induction l with
  | zero => exact h.advance hk hl
  | succ l ih =>
    rw [descend, h.advance hk hl]
    exact ih (by omega)

theorem Rep.descend (h : s.Rep (pre ++ post)) (hk : Cuts key pre post) :
    s.descend key s.currentLevelIndex s.head = some (s.before pre 0) := by
  have hd := h.descend_from hk h.bound
  rwa [h.before_above (Nat.lt_succ_self _)] at hd

/-- The update list holds the node in front of the cut on each of these levels. -/
def Recorded (s : Skiplist κ ν) (pre : List (Cell κ ν)) (l : Nat)
    (update : List (Option Nat)) : Prop :=
  update.length = s.maxLevelIndex + 1 ∧ ∀ k < l, update[k]? = some (some (s.before pre k))

theorem setUpdate_eq {update : List (Option Nat)} (hl : l < update.length) :
    setUpdate update l p = some (update.set l (some p)) := if_pos hl

/-- The levels from `l` on are as they were. -/
theorem Rep.descendWithUpdate_from (h : s.Rep (pre ++ post)) (hk : Cuts key pre post)
    (hl : l ≤ s.maxLevelIndex) {update : List (Option Nat)}
    (hu : update.length = s.maxLevelIndex + 1) :
    ∃ update', s.descendWithUpdate key l (s.before pre (l + 1)) update =
        some (s.before pre 0, update') ∧ Recorded s pre (l + 1) update' ∧
      ∀ k, l < k → update'[k]? = update[k]? := by
  induction l generalizing update with
  | zero =>
    refine ⟨update.set 0 (some (s.before pre 0)), ?_, ⟨?_, ?_⟩, ?_⟩
    · simp [Skiplist.descendWithUpdate, h.advance hk hl,
        setUpdate_eq (by omega : 0 < update.length)]
    · rw [List.length_set]
      exact hu
    · intro k hk0
      obtain rfl : k = 0 := by omega
      rw [List.getElem?_set_self (by omega)]
    · intro k hk0
      rw [List.getElem?_set_ne (by omega)]
  | succ l ih =>
    have hset : (update.set (l + 1) (some (s.before pre (l + 1)))).length =
        s.maxLevelIndex + 1 := by
      rw [List.length_set]
      exact hu
    obtain ⟨update', hrun, ⟨hlen, hrec⟩, hrest⟩ := ih (by omega) hset
    refine ⟨update', ?_, ⟨hlen, ?_⟩, ?_⟩
    · simp [Skiplist.descendWithUpdate, h.advance hk hl,
        setUpdate_eq (by omega : l + 1 < update.length), hrun]
    · intro k hkl
      by_cases hke : k = l + 1
      · subst hke
        rw [hrest _ (by omega), List.getElem?_set_self (by omega)]
      · exact hrec k (by omega)
    · intro k hkl
      rw [hrest k (by omega), List.getElem?_set_ne (by omega)]

/-- Where `_Ptr` points after the search. -/
theorem Rep.forward_zero (h : s.Rep (pre ++ post)) :
    s.forward (s.before pre 0) 0 = some (post.head?.map (·.addr)) := by
  rw [h.forward_before (Nat.zero_le _), level_zero, List.head?_map]
  intro c hc
  exact h.positive c (List.mem_append_right _ hc)

theorem Rep.findWithUpdate (h : s.Rep (pre ++ post)) (hk : Cuts key pre post) :
    ∃ update, s.findWithUpdate key s.updateList =
        some (post.head?.map (·.addr), update) ∧
      Recorded s pre (s.currentLevelIndex + 1) update := by
  obtain ⟨update, hrun, hrec, _⟩ := h.descendWithUpdate_from hk h.bound
    (show s.updateList.length = _ by simp [updateList])
  rw [h.before_above (Nat.lt_succ_self _)] at hrun
  refine ⟨update, ?_, hrec⟩
  simp [Skiplist.findWithUpdate, hrun, h.forward_zero]

/-- The key is in the list when the cell behind the cut has it. -/
def atCut (key : κ) (post : List (Cell κ ν)) : Option (Cell κ ν) :=
  post.head?.filter fun c => c.key = key

theorem Rep.holding (h : s.Rep (pre ++ post)) (key : κ) :
    s.holding key (post.head?.map (·.addr)) = some ((atCut key post).map (·.addr)) := by
  cases post with
  | nil => rfl
  | cons c post =>
    have hd := h.data (c := c) (List.mem_append_right _ List.mem_cons_self)
    by_cases hc : c.key = key
    · simp [Skiplist.holding, atCut, Option.filter, hd, Cell.pair, hc]
    · simp [Skiplist.holding, atCut, Option.filter, hd, Cell.pair, hc]

theorem Rep.findNode (h : s.Rep (pre ++ post)) (hk : Cuts key pre post) :
    s.findNode key = some ((atCut key post).map (·.addr)) := by
  simp only [Skiplist.findNode, h.descend hk, Option.bind_eq_bind, Option.bind_some,
    h.forward_zero]
  exact h.holding key

/-- Every key cuts a sorted list. -/
theorem exists_cut {cs : List (Cell κ ν)} (hs : cs.Pairwise fun c d => c.key < d.key) (key : κ) :
    ∃ pre post, cs = pre ++ post ∧ Cuts key pre post := by
  induction cs with
  | nil => exact ⟨[], [], rfl, ⟨by simp, by simp⟩⟩
  | cons c cs ih =>
    obtain ⟨hc, hs⟩ := List.pairwise_cons.mp hs
    by_cases hlt : c.key < key
    · obtain ⟨pre, post, rfl, hsm, hrest⟩ := ih hs
      refine ⟨c :: pre, post, rfl, ?_, hrest⟩
      intro d hd
      rcases List.mem_cons.mp hd with rfl | hd
      · exact hlt
      · exact hsm d hd
    · refine ⟨[], c :: cs, rfl, by simp, ?_⟩
      intro d hd
      have hle : key ≤ c.key := not_lt.mp hlt
      rcases List.mem_cons.mp hd with rfl | hd
      · exact hle
      · exact le_trans hle (le_of_lt (hc d hd))

end Advance

end Skiplist

end WWRaftKV
