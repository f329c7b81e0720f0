/-
The skip list is a sorted finite map.

`StoreOp` lists the operations with the level draws of each.  `step` runs one on the heap
and reads what the iterators point at; `spec` runs it on a finite map.
-/
import WWRaftKV.General.SortedMap
import WWRaftKV.Store.Clear
import WWRaftKV.Store.Write

namespace WWRaftKV

open Linked SortedMap

/-- `eraseAt` is `erase(find(key))`, and `assign` a write through the reference that
`operator[]` returns. -/
inductive StoreOp (κ ν : Type)
  | insert (key : κ) (value : ν) (draws : List Bool)
  | index (key : κ) (draws : List Bool)
  | assign (key : κ) (value : ν) (draws : List Bool)
  | eraseKey (key : κ)
  | eraseAt (key : κ)
  | find (key : κ)
  | contains (key : κ)
  | size
  | clear

/-- Iterators are given by their elements, `end()` by `none`. -/
inductive StoreResult (κ ν : Type)
  | inserted (element : κ × ν) (isNew : Bool)
  | value (v : ν)
  | count (n : Nat)
  | element (e : Option (κ × ν))
  | found (b : Bool)
  | done

namespace StoreOp

variable {κ ν : Type} [LinearOrder κ] [Inhabited ν]

/-- The operation on a finite map. -/
def spec (m : Finmap fun _ : κ => ν) : StoreOp κ ν → StoreResult κ ν × Finmap fun _ : κ => ν
  | insert key value _ =>
    match m.lookup key with
    | some v => (.inserted (key, v) false, m)
    | none => (.inserted (key, value) true, m.insert key value)
  | index key _ =>
    match m.lookup key with
    | some v => (.value v, m)
    | none => (.value default, m.insert key default)
  | assign key value _ => (.done, m.insert key value)
  | eraseKey key => (.count (if (m.lookup key).isSome then 1 else 0), m.erase key)
  | eraseAt key => (.element (if (m.lookup key).isSome then above m key else none), m.erase key)
  | find key => (.element ((m.lookup key).map fun v => (key, v)), m)
  | contains key => (.found (m.lookup key).isSome, m)
  | size => (.count m.keys.card, m)
  | clear => (.done, ∅)

/-- A sequence of operations on a finite map, with all results. -/
def specRun (m : Finmap fun _ : κ => ν) :
    List (StoreOp κ ν) → List (StoreResult κ ν) × Finmap fun _ : κ => ν
  | [] => ([], m)
  | op :: ops =>
    ((op.spec m).1 :: (specRun (op.spec m).2 ops).1, (specRun (op.spec m).2 ops).2)

end StoreOp

namespace Skiplist

variable {κ ν : Type} [LinearOrder κ]

section Step

variable [Inhabited ν]

/-- What an iterator points at. -/
def element (s : Skiplist κ ν) : Option Nat → Option (Option (κ × ν))
  | none => some none
  | some p => (s.data p).map some

def step (s : Skiplist κ ν) : StoreOp κ ν → Option (StoreResult κ ν × Skiplist κ ν)
  | .insert key value draws => do
    let ((p, isNew), s) ← s.insert (key, value) draws
    let pair ← s.data p
    some (.inserted pair isNew, s)
  | .index key draws => do
    let (p, s) ← s.getOrInsert key draws
    let pair ← s.data p
    some (.value pair.2, s)
  | .assign key value draws => do
    let (p, s) ← s.getOrInsert key draws
    let s ← s.setValue p value
    some (.done, s)
  | .eraseKey key => do
    let (n, s) ← s.eraseKey key
    some (.count n, s)
  | .eraseAt key => do
    let p ← s.findNode key
    let (next, s) ← s.eraseAt p
    let e ← s.element next
    some (.element e, s)
  | .find key => do
    let p ← s.findNode key
    let e ← s.element p
    some (.element e, s)
  | .contains key => do
    let b ← s.contains key
    some (.found b, s)
  | .size => some (.count s.size, s)
  | .clear => do
    let s ← s.clear
    some (.done, s)

def run (s : Skiplist κ ν) : List (StoreOp κ ν) → Option (List (StoreResult κ ν) × Skiplist κ ν)
  | [] => some ([], s)
  | op :: ops => do
    let (r, s) ← s.step op
    let (rs, s) ← run s ops
    some (r :: rs, s)

end Step

/-! ## Contents -/

/-- The finite map of the cells. -/
def contents (cs : List (Cell κ ν)) : Finmap fun _ : κ => ν := ofList (cs.map Cell.pair)

/-- The skip list is well formed and holds this map. -/
def Represents (s : Skiplist κ ν) (m : Finmap fun _ : κ => ν) : Prop :=
  ∃ cs, s.Rep cs ∧ contents cs = m

section Contents

variable {s : Skiplist κ ν} {cs pre post : List (Cell κ ν)} {c : Cell κ ν} {key : κ} {value : ν}

theorem contents_append_cons :
    contents (pre ++ c :: post) = ofList (pre.map Cell.pair ++ c.pair :: post.map Cell.pair) := by
  simp [contents]

theorem contents_append :
    contents (pre ++ post) = ofList (pre.map Cell.pair ++ post.map Cell.pair) := by
  simp [contents]

theorem cut_pair (hpre : ∀ d ∈ pre, d.key < key) (hpost : ∀ d ∈ post, key < d.key) :
    Cut key (pre.map Cell.pair) (post.map Cell.pair) where
  below := by
    intro e he
    obtain ⟨d, hd, rfl⟩ := List.mem_map.mp he
    exact hpre d hd
  above := by
    intro e he
    obtain ⟨d, hd, rfl⟩ := List.mem_map.mp he
    exact hpost d hd

/-- A key is at its cut, or nowhere. -/
theorem Rep.cases_key (h : s.Rep cs) (key : κ) :
    (∃ pre c post, cs = pre ++ c :: post ∧ c.key = key ∧ Cuts key pre (c :: post) ∧
        Cut key (pre.map Cell.pair) (post.map Cell.pair)) ∨
      ∃ pre post, cs = pre ++ post ∧ atCut key post = none ∧ Cuts key pre post ∧
        Cut key (pre.map Cell.pair) (post.map Cell.pair) := by
  obtain ⟨pre, post, rfl, hk⟩ := exists_cut h.sorted key
  have hs := (List.pairwise_append.mp h.sorted).2.1
  cases post with
  | nil => exact .inr ⟨pre, [], rfl, rfl, hk, cut_pair hk.smaller (by simp)⟩
  | cons c post =>
    have htail := (List.pairwise_cons.mp hs).1
    have hc := hk.rest c List.mem_cons_self
    by_cases he : c.key = key
    · refine .inl ⟨pre, c, post, rfl, he, hk, cut_pair hk.smaller ?_⟩
      intro d hd
      exact lt_of_le_of_lt hc (htail d hd)
    · refine .inr ⟨pre, c :: post, rfl, ?_, hk, cut_pair hk.smaller ?_⟩
      · simp [atCut, Option.filter, he]
      · intro d hd
        have hlt : key < c.key := lt_of_le_of_ne hc (Ne.symm he)
        rcases List.mem_cons.mp hd with rfl | hd
        · exact hlt
        · exact lt_trans hlt (htail d hd)

omit [LinearOrder κ] in
theorem pair_of_key (h : c.key = key) : c.pair = (key, c.value) := by
  rw [← h]
  rfl

theorem lookup_contents_present (hc : c.key = key)
    (hcut : Cut key (pre.map Cell.pair) (post.map Cell.pair)) :
    (contents (pre ++ c :: post)).lookup key = some c.value := by
  rw [contents_append_cons, pair_of_key hc]
  exact hcut.lookup_present

theorem lookup_contents_absent (hcut : Cut key (pre.map Cell.pair) (post.map Cell.pair)) :
    (contents (pre ++ post)).lookup key = none := by
  rw [contents_append]
  exact hcut.lookup_absent

theorem insert_contents_absent (hp : c.pair = (key, value))
    (hcut : Cut key (pre.map Cell.pair) (post.map Cell.pair)) :
    contents (pre ++ c :: post) = (contents (pre ++ post)).insert key value := by
  rw [contents_append_cons, hp, contents_append]
  exact hcut.insert_absent value

theorem erase_contents_present (hc : c.key = key)
    (hcut : Cut key (pre.map Cell.pair) (post.map Cell.pair)) :
    contents (pre ++ post) = (contents (pre ++ c :: post)).erase key := by
  rw [contents_append_cons, pair_of_key hc, contents_append]
  exact hcut.erase_present c.value

theorem pairwise_pair (h : cs.Pairwise fun c d => c.key < d.key) :
    (cs.map Cell.pair).Pairwise fun d e => d.1 < e.1 := List.pairwise_map.mpr h

end Contents

/-! ## Operations -/

section Operations

variable {s : Skiplist κ ν} {cs pre post : List (Cell κ ν)} {c : Cell κ ν} {key : κ} {value : ν}
  {draws : List Bool}

theorem atCut_self (hc : c.key = key) : atCut key (c :: post) = some c := by
  simp [atCut, Option.filter, hc]

theorem Rep.insert_present (h : s.Rep (pre ++ c :: post)) (hk : Cuts key pre (c :: post))
    (hc : c.key = key) : s.insert (key, value) draws = some ((c.addr, false), s) := by
  obtain ⟨update, hfind, _⟩ := h.findWithUpdate hk
  have hhold := h.holding key
  rw [atCut_self hc] at hhold
  simp only [Skiplist.insert, hfind, hhold, Option.bind_eq_bind, Option.bind_some,
    Option.map_some]

theorem Rep.insert_absent (h : s.Rep (pre ++ post)) (hk : Cuts key pre post)
    (hnone : atCut key post = none) (value : ν) (draws : List Bool) :
    ∃ c t, s.insert (key, value) draws = some ((c.addr, true), t) ∧ c.pair = (key, value) ∧
      t.Rep (pre ++ c :: post) := by
  obtain ⟨update, hfind, hrec⟩ := h.findWithUpdate hk
  have hhold := h.holding key
  rw [hnone] at hhold
  obtain ⟨c, t, hrun, hp, ht⟩ := h.createAndInsert hk hnone value draws hrec
  refine ⟨c, t, ?_, hp, ht⟩
  simp only [Skiplist.insert, hfind, hhold, hrun, Option.bind_eq_bind, Option.bind_some,
    Option.map_none]

theorem Rep.getOrInsert_present [Inhabited ν] (h : s.Rep (pre ++ c :: post))
    (hk : Cuts key pre (c :: post)) (hc : c.key = key) :
    s.getOrInsert key draws = some (c.addr, s) := by
  obtain ⟨update, hfind, _⟩ := h.findWithUpdate hk
  have hhold := h.holding key
  rw [atCut_self hc] at hhold
  simp only [Skiplist.getOrInsert, hfind, hhold, Option.bind_eq_bind, Option.bind_some,
    Option.map_some]

theorem Rep.getOrInsert_absent [Inhabited ν] (h : s.Rep (pre ++ post)) (hk : Cuts key pre post)
    (hnone : atCut key post = none) (draws : List Bool) :
    ∃ c t, s.getOrInsert key draws = some (c.addr, t) ∧ c.pair = (key, default) ∧
      t.Rep (pre ++ c :: post) := by
  obtain ⟨update, hfind, hrec⟩ := h.findWithUpdate hk
  have hhold := h.holding key
  rw [hnone] at hhold
  obtain ⟨c, t, hrun, hp, ht⟩ := h.createAndInsert hk hnone default draws hrec
  refine ⟨c, t, ?_, hp, ht⟩
  simp only [Skiplist.getOrInsert, hfind, hhold, hrun, Option.bind_eq_bind, Option.bind_some,
    Option.map_none]

/-- The cell in the middle can be read. -/
theorem Rep.data_middle (h : s.Rep (pre ++ c :: post)) : s.data c.addr = some c.pair :=
  h.data (List.mem_append_right _ List.mem_cons_self)

/-- The element behind the cut. -/
theorem Rep.element_head (h : s.Rep (pre ++ post)) :
    s.element (post.head?.map (·.addr)) = some (post.head?.map Cell.pair) := by
  cases post with
  | nil => rfl
  | cons c post => simp [element, h.data_middle]

theorem above_contents (h : s.Rep (pre ++ c :: post)) (hc : c.key = key) :
    above (contents (pre ++ c :: post)) key = post.head?.map Cell.pair := by
  obtain ⟨_, hs, hlt⟩ := List.pairwise_append.mp h.sorted
  obtain ⟨hcs, hs⟩ := List.pairwise_cons.mp hs
  have hsplit : contents (pre ++ c :: post) =
      ofList (pre.map Cell.pair ++ [c.pair] ++ post.map Cell.pair) := by
    simp [contents]
  rw [hsplit, above_ofList, List.head?_map]
  · intro e he
    rcases List.mem_append.mp he with he | he
    · obtain ⟨d, hd, rfl⟩ := List.mem_map.mp he
      exact le_of_lt (hc ▸ hlt d hd c List.mem_cons_self)
    · obtain rfl := List.mem_singleton.mp he
      exact le_of_eq hc
  · intro e he
    obtain ⟨d, hd, rfl⟩ := List.mem_map.mp he
    exact hc ▸ hcs d hd
  · exact pairwise_pair hs

end Operations

/-! ## Refinement -/

section Refinement

variable [Inhabited ν] {s : Skiplist κ ν} {cs : List (Cell κ ν)}

/-- The step gives what the finite map gives, and holds what it holds. -/
def Simulates (s : Skiplist κ ν) (cs : List (Cell κ ν)) (op : StoreOp κ ν) : Prop :=
  ∃ t, s.step op = some ((op.spec (contents cs)).1, t) ∧ t.Represents (op.spec (contents cs)).2

theorem simulates_insert (h : s.Rep cs) (key : κ) (value : ν) (draws : List Bool) :
    s.Simulates cs (.insert key value draws) := by
  rcases h.cases_key key with ⟨pre, c, post, rfl, hc, hk, hcut⟩ | ⟨pre, post, rfl, hnone, hk, hcut⟩
  · have hspec : StoreOp.spec (contents (pre ++ c :: post)) (.insert key value draws) =
        (.inserted (key, c.value) false, contents (pre ++ c :: post)) := by
      simp [StoreOp.spec, lookup_contents_present hc hcut]
    rw [Simulates, hspec]
    refine ⟨s, ?_, _, h, rfl⟩
    simp [step, h.insert_present hk hc, h.data_middle, pair_of_key hc]
  · have hspec : StoreOp.spec (contents (pre ++ post)) (.insert key value draws) =
        (.inserted (key, value) true, (contents (pre ++ post)).insert key value) := by
      simp [StoreOp.spec, lookup_contents_absent hcut]
    obtain ⟨c, t, hrun, hp, ht⟩ := h.insert_absent hk hnone value draws
    rw [Simulates, hspec]
    refine ⟨t, ?_, _, ht, insert_contents_absent hp hcut⟩
    simp [step, hrun, ht.data_middle, hp]

theorem simulates_index (h : s.Rep cs) (key : κ) (draws : List Bool) :
    s.Simulates cs (.index key draws) := by
  rcases h.cases_key key with ⟨pre, c, post, rfl, hc, hk, hcut⟩ | ⟨pre, post, rfl, hnone, hk, hcut⟩
  · have hspec : StoreOp.spec (contents (pre ++ c :: post)) (.index key draws) =
        (.value c.value, contents (pre ++ c :: post)) := by
      simp [StoreOp.spec, lookup_contents_present hc hcut]
    rw [Simulates, hspec]
    refine ⟨s, ?_, _, h, rfl⟩
    simp [step, h.getOrInsert_present hk hc, h.data_middle, Cell.pair]
  · have hspec : StoreOp.spec (contents (pre ++ post)) (.index key draws) =
        (.value default, (contents (pre ++ post)).insert key default) := by
      simp [StoreOp.spec, lookup_contents_absent hcut]
    obtain ⟨c, t, hrun, hp, ht⟩ := h.getOrInsert_absent hk hnone draws
    rw [Simulates, hspec]
    refine ⟨t, ?_, _, ht, insert_contents_absent hp hcut⟩
    simp [step, hrun, ht.data_middle, hp]

theorem simulates_assign (h : s.Rep cs) (key : κ) (value : ν) (draws : List Bool) :
    s.Simulates cs (.assign key value draws) := by
  rcases h.cases_key key with ⟨pre, c, post, rfl, hc, hk, hcut⟩ | ⟨pre, post, rfl, hnone, hk, hcut⟩
  · obtain ⟨t, hrun, ht⟩ := h.setValue value
    refine ⟨t, ?_, _, ht, ?_⟩
    · simp [step, StoreOp.spec, h.getOrInsert_present hk hc, hrun]
    · show contents _ = (contents (pre ++ c :: post)).insert key value
      rw [contents_append_cons, contents_append_cons, pair_of_key hc]
      have hp : ({ c with value := value } : Cell κ ν).pair = (key, value) := pair_of_key hc
      rw [hp]
      exact hcut.insert_present c.value value
  · obtain ⟨c, t, hrun, hp, ht⟩ := h.getOrInsert_absent hk hnone draws
    obtain ⟨t', hrun', ht'⟩ := ht.setValue value
    refine ⟨t', ?_, _, ht', ?_⟩
    · simp [step, StoreOp.spec, hrun, hrun']
    · apply insert_contents_absent _ hcut
      exact pair_of_key (congrArg Prod.fst hp)

theorem simulates_eraseKey (h : s.Rep cs) (key : κ) : s.Simulates cs (.eraseKey key) := by
  rcases h.cases_key key with ⟨pre, c, post, rfl, hc, hk, hcut⟩ | ⟨pre, post, rfl, hnone, hk, hcut⟩
  · obtain ⟨t, hrun, ht⟩ := h.eraseKey_some hk hc
    refine ⟨t, ?_, _, ht, erase_contents_present hc hcut⟩
    simp [step, StoreOp.spec, hrun, lookup_contents_present hc hcut]
  · have hlook := lookup_contents_absent hcut
    refine ⟨s, ?_, _, h, (erase_of_lookup hlook).symm⟩
    simp [step, StoreOp.spec, h.eraseKey_none hk hnone, hlook]

theorem simulates_eraseAt (h : s.Rep cs) (key : κ) : s.Simulates cs (.eraseAt key) := by
  rcases h.cases_key key with ⟨pre, c, post, rfl, hc, hk, hcut⟩ | ⟨pre, post, rfl, hnone, hk, hcut⟩
  · obtain ⟨t, hrun, ht⟩ := h.eraseAt
    refine ⟨t, ?_, _, ht, erase_contents_present hc hcut⟩
    simp [step, StoreOp.spec, h.findNode hk, atCut_self hc, hrun, ht.element_head,
      lookup_contents_present hc hcut, above_contents h hc]
  · have hlook := lookup_contents_absent hcut
    refine ⟨s, ?_, _, h, (erase_of_lookup hlook).symm⟩
    simp [step, StoreOp.spec, h.findNode hk, hnone, eraseAt, element, hlook]

theorem simulates_find (h : s.Rep cs) (key : κ) : s.Simulates cs (.find key) := by
  rcases h.cases_key key with ⟨pre, c, post, rfl, hc, hk, hcut⟩ | ⟨pre, post, rfl, hnone, hk, hcut⟩
  · refine ⟨s, ?_, _, h, rfl⟩
    simp [step, StoreOp.spec, h.findNode hk, atCut_self hc, element, h.data_middle,
      lookup_contents_present hc hcut, pair_of_key hc]
  · refine ⟨s, ?_, _, h, rfl⟩
    simp [step, StoreOp.spec, h.findNode hk, hnone, element, lookup_contents_absent hcut]

theorem simulates_contains (h : s.Rep cs) (key : κ) : s.Simulates cs (.contains key) := by
  rcases h.cases_key key with ⟨pre, c, post, rfl, hc, hk, hcut⟩ | ⟨pre, post, rfl, hnone, hk, hcut⟩
  · refine ⟨s, ?_, _, h, rfl⟩
    simp [step, StoreOp.spec, contains, h.findNode hk, atCut_self hc,
      lookup_contents_present hc hcut]
  · refine ⟨s, ?_, _, h, rfl⟩
    simp [step, StoreOp.spec, contains, h.findNode hk, hnone, lookup_contents_absent hcut]

theorem simulates_step (h : s.Rep cs) (op : StoreOp κ ν) : s.Simulates cs op := by
  cases op with
  | insert key value draws => exact simulates_insert h key value draws
  | index key draws => exact simulates_index h key draws
  | assign key value draws => exact simulates_assign h key value draws
  | eraseKey key => exact simulates_eraseKey h key
  | eraseAt key => exact simulates_eraseAt h key
  | find key => exact simulates_find h key
  | contains key => exact simulates_contains h key
  | size =>
    refine ⟨s, ?_, _, h, rfl⟩
    have hcard := card_keys (pairwise_pair h.sorted)
    rw [List.length_map, ← h.size] at hcard
    simp [step, StoreOp.spec, contents, hcard]
  | clear =>
    obtain ⟨t, hrun, ht⟩ := h.clear
    refine ⟨t, ?_, _, ht, rfl⟩
    simp [step, StoreOp.spec, hrun]

theorem simulates_run {m : Finmap fun _ : κ => ν} (h : s.Represents m) (ops : List (StoreOp κ ν)) :
    ∃ t, s.run ops = some ((StoreOp.specRun m ops).1, t) ∧
      t.Represents (StoreOp.specRun m ops).2 := by
  induction ops generalizing s m with
  | nil => exact ⟨s, rfl, h⟩
  | cons op ops ih =>
    obtain ⟨cs, hrep, rfl⟩ := h
    obtain ⟨t, hstep, ht⟩ := simulates_step hrep op
    obtain ⟨t', hrun, ht'⟩ := ih ht
    refine ⟨t', ?_, ht'⟩
    simp [run, StoreOp.specRun, hstep, hrun]

/-- From an empty list of any number of levels, every sequence of operations with every
outcome of the draws runs without undefined behaviour, gives the results of a finite map
and ends in a well-formed list that holds that map. -/
theorem refines_finiteMap [Inhabited κ] (n : Nat) (ops : List (StoreOp κ ν)) :
    ∃ s, (make (n + 1) : Skiplist κ ν).run ops = some ((StoreOp.specRun ∅ ops).1, s) ∧
      s.Represents (StoreOp.specRun ∅ ops).2 :=
  simulates_run ⟨[], make_rep n, rfl⟩ ops

end Refinement

end Skiplist

end WWRaftKV
