/-
The key-value store over the skip list.

Each operation does on the skip list what the same operation does on a finite map, and a
traversal yields the pairs of that map in the order of their keys.
-/
import WWRaftKV.Store.Refine

namespace WWRaftKV

open Linked SortedMap

namespace KVStore

variable {κ ν : Type}

/-! ## Traversal -/

/-- The traversal from an iterator to `end()`. -/
def pairsFrom (s : Skiplist κ ν) : Nat → Option Nat → Option (List (κ × ν))
  | _, none => some []
  | 0, some _ => none
  | rounds + 1, some p => do
    let pair ← s.data p
    let next ← s.forward p 0
    let rest ← pairsFrom s rounds next
    some (pair :: rest)

/-- `for (pair : _KVStore)`. -/
def pairs (s : Skiplist κ ν) : Option (List (κ × ν)) := do
  let first ← s.forward s.head 0
  pairsFrom s s.size first

theorem pairsFrom_spec {s : Skiplist κ ν} {cs : List (Cell κ ν)} {a n : Nat} {e : Option Nat}
    (hd : ∀ c ∈ cs, s.data c.addr = some c.pair)
    (hl : Links (s.forward · 0) a (cs.map (·.addr)) none) (ha : s.forward a 0 = some e)
    (hn : cs.length ≤ n) : pairsFrom s n e = some (cs.map Cell.pair) := by
  induction cs generalizing a e n with
  | nil =>
    have he : s.forward a 0 = some none := hl
    rw [ha] at he
    obtain rfl := Option.some.inj he
    cases n <;> rfl
  | cons c cs ih =>
    rw [List.length_cons] at hn
    obtain ⟨n, rfl⟩ := Nat.exists_eq_succ_of_ne_zero (by omega : n ≠ 0)
    have he : s.forward a 0 = some (some c.addr) := hl.1
    rw [ha] at he
    obtain rfl := Option.some.inj he
    obtain ⟨next, hnext⟩ : ∃ next, s.forward c.addr 0 = some next := ⟨_, hl.2.first⟩
    have hrest := ih (fun d hd' => hd d (List.mem_cons_of_mem _ hd')) hl.2 hnext
      (n := n) (by omega)
    simp [pairsFrom, hd c List.mem_cons_self, hnext, hrest]

variable [LinearOrder κ]

/-! ## The operations -/

/-- `get` goes through `operator[]`. -/
def get [Inhabited ν] (s : Skiplist κ ν) (key : κ) (draws : List Bool) :
    Option (ν × Skiplist κ ν) := do
  let (p, s) ← s.getOrInsert key draws
  let pair ← s.data p
  some (pair.2, s)

def put (s : Skiplist κ ν) (key : κ) (value : ν) (draws : List Bool) :
    Option (Bool × Skiplist κ ν) := do
  let ((_, isNew), s) ← s.insert (key, value) draws
  some (isNew, s)

def update [Inhabited ν] (s : Skiplist κ ν) (key : κ) (value : ν) (draws : List Bool) :
    Option (Bool × Skiplist κ ν) := do
  let (p, s) ← s.getOrInsert key draws
  let s ← s.setValue p value
  some (true, s)

def remove (s : Skiplist κ ν) (key : κ) : Option (Bool × Skiplist κ ν) := do
  let (count, s) ← s.eraseKey key
  some (count != 0, s)

section Operations

variable {s : Skiplist κ ν} {m : Finmap fun _ : κ => ν} (key : κ) (value : ν) (draws : List Bool)

theorem get_present [Inhabited ν] (h : s.Represents m) {v : ν} (hv : m.lookup key = some v) :
    get s key draws = some (v, s) := by
  obtain ⟨cs, hrep, rfl⟩ := h
  rcases hrep.cases_key key with ⟨pre, c, post, rfl, hc, hk, hcut⟩ | ⟨pre, post, rfl, _, _, hcut⟩
  · rw [Skiplist.lookup_contents_present hc hcut] at hv
    simp [get, hrep.getOrInsert_present hk hc, hrep.data_middle, Cell.pair, Option.some.inj hv]
  · rw [Skiplist.lookup_contents_absent hcut] at hv
    cases hv

/-- Reading an absent key puts the default value into the store. -/
theorem get_absent [Inhabited ν] (h : s.Represents m) (hn : m.lookup key = none) :
    ∃ t, get s key draws = some (default, t) ∧ t.Represents (m.insert key default) := by
  obtain ⟨cs, hrep, rfl⟩ := h
  rcases hrep.cases_key key with
    ⟨pre, c, post, rfl, hc, _, hcut⟩ | ⟨pre, post, rfl, hnone, hk, hcut⟩
  · rw [Skiplist.lookup_contents_present hc hcut] at hn
    cases hn
  · obtain ⟨c, t, hrun, hp, ht⟩ := hrep.getOrInsert_absent hk hnone draws
    refine ⟨t, ?_, _, ht, Skiplist.insert_contents_absent hp hcut⟩
    simp [get, hrun, ht.data_middle, hp]

theorem put_present (h : s.Represents m) {v : ν} (hv : m.lookup key = some v) :
    put s key value draws = some (false, s) := by
  obtain ⟨cs, hrep, rfl⟩ := h
  rcases hrep.cases_key key with ⟨pre, c, post, rfl, hc, hk, hcut⟩ | ⟨pre, post, rfl, _, _, hcut⟩
  · simp [put, hrep.insert_present hk hc]
  · rw [Skiplist.lookup_contents_absent hcut] at hv
    cases hv

theorem put_absent (h : s.Represents m) (hn : m.lookup key = none) :
    ∃ t, put s key value draws = some (true, t) ∧ t.Represents (m.insert key value) := by
  obtain ⟨cs, hrep, rfl⟩ := h
  rcases hrep.cases_key key with
    ⟨pre, c, post, rfl, hc, _, hcut⟩ | ⟨pre, post, rfl, hnone, hk, hcut⟩
  · rw [Skiplist.lookup_contents_present hc hcut] at hn
    cases hn
  · obtain ⟨c, t, hrun, hp, ht⟩ := hrep.insert_absent hk hnone value draws
    refine ⟨t, ?_, _, ht, Skiplist.insert_contents_absent hp hcut⟩
    simp [put, hrun]

theorem update_spec [Inhabited ν] (h : s.Represents m) :
    ∃ t, update s key value draws = some (true, t) ∧ t.Represents (m.insert key value) := by
  obtain ⟨cs, hrep, rfl⟩ := h
  obtain ⟨t, hrun, ht⟩ := Skiplist.simulates_assign hrep key value draws
  refine ⟨t, ?_, ht⟩
  simp only [Skiplist.step, Option.bind_eq_bind, Option.bind_eq_some_iff] at hrun
  obtain ⟨⟨p, s'⟩, hget, s'', hset, he⟩ := hrun
  obtain rfl : s'' = t := congrArg Prod.snd (Option.some.inj he)
  simp [update, hget, hset]

theorem remove_spec (h : s.Represents m) :
    ∃ t, remove s key = some ((m.lookup key).isSome, t) ∧ t.Represents (m.erase key) := by
  obtain ⟨cs, hrep, rfl⟩ := h
  rcases hrep.cases_key key with
    ⟨pre, c, post, rfl, hc, hk, hcut⟩ | ⟨pre, post, rfl, hnone, hk, hcut⟩
  · obtain ⟨t, hrun, ht⟩ := hrep.eraseKey_some hk hc
    refine ⟨t, ?_, _, ht, Skiplist.erase_contents_present hc hcut⟩
    simp [remove, hrun, Skiplist.lookup_contents_present hc hcut]
  · have hlook := Skiplist.lookup_contents_absent hcut
    refine ⟨s, ?_, _, hrep, (erase_of_lookup hlook).symm⟩
    simp [remove, hrep.eraseKey_none hk hnone, hlook]

theorem contains_spec (h : s.Represents m) : s.contains key = some (m.lookup key).isSome := by
  obtain ⟨cs, hrep, rfl⟩ := h
  rcases hrep.cases_key key with
    ⟨pre, c, post, rfl, hc, hk, hcut⟩ | ⟨pre, post, rfl, hnone, hk, hcut⟩
  · simp [Skiplist.contains, hrep.findNode hk, Skiplist.atCut_self hc,
      Skiplist.lookup_contents_present hc hcut]
  · simp [Skiplist.contains, hrep.findNode hk, hnone, Skiplist.lookup_contents_absent hcut]

end Operations

/-! ## The pairs -/

section Pairs

variable {s t : Skiplist κ ν} {cs : List (Cell κ ν)} {m m' : Finmap fun _ : κ => ν}

theorem pairs_of_rep (h : s.Rep cs) : pairs s = some (cs.map Cell.pair) := by
  have hl := h.links 0 (Nat.zero_le _)
  rw [Skiplist.level_zero h.positive] at hl
  have hp := pairsFrom_spec (fun c hc => h.data hc) hl hl.first (Nat.le_of_eq h.size.symm)
  simp only [pairs, hl.first, Option.bind_eq_bind, Option.bind_some]
  exact hp

/-- Two stores have the same pairs when they hold the same map. -/
theorem pairs_eq_iff (h : s.Represents m) (h' : t.Represents m') :
    pairs s = pairs t ↔ m = m' := by
  obtain ⟨cs, hrep, rfl⟩ := h
  obtain ⟨ds, hrep', rfl⟩ := h'
  rw [pairs_of_rep hrep, pairs_of_rep hrep', Option.some.injEq]
  constructor
  · intro he
    exact congrArg ofList he
  · exact ofList_injective (Skiplist.pairwise_pair hrep.sorted)
      (Skiplist.pairwise_pair hrep'.sorted)

end Pairs

end KVStore

end WWRaftKV
