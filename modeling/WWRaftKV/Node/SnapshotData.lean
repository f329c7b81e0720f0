/-
The messages of a snapshot file, as the generated code writes them.

An entry has the fields 1 and 2, key and value, and an empty string is left out.  The data
has its entries in field 1.
-/
import WWRaftKV.General.Fields
import WWRaftKV.Node.Contents

namespace WWRaftKV

open Fields

namespace SnapshotData

/-- The fields of `RaftSnapshotEntry`. -/
def entryFields (e : Str × Str) : List (Char × Str) :=
  [(Char.ofNat 10, e.1), (Char.ofNat 18, e.2)].filter fun x => x.2 ≠ []

def serializeEntry (e : Str × Str) : Str :=
  (entryFields e).flatMap fun x => field x.1 x.2

def serialize (ps : List (Str × Str)) : Str :=
  ps.flatMap fun e => field (Char.ofNat 10) (serializeEntry e)

/-- The body of the last field with this tag. -/
def bodyOf (tag : Char) (fields : List (Char × Str)) : Str :=
  ((fields.filter fun x => x.1 = tag).getLast?.map (·.2)).getD []

def parseEntry (text : Str) : Option (Str × Str) :=
  (readFields text.length text).map fun fields =>
    (bodyOf (Char.ofNat 10) fields, bodyOf (Char.ofNat 18) fields)

def parse (text : Str) : Option (List (Str × Str)) := do
  let fields ← readFields text.length text
  (fields.filter fun x => x.1 = Char.ofNat 10).mapM fun x => parseEntry x.2

theorem parseEntry_serializeEntry (e : Str × Str) : parseEntry (serializeEntry e) = some e := by
  have hfields := readFields_flatMap id (entryFields e) (length_le_flatMap id (entryFields e))
  rw [List.map_id] at hfields
  have htags : Char.ofNat 10 ≠ Char.ofNat 18 := by decide
  obtain ⟨key, value⟩ := e
  unfold parseEntry serializeEntry
  rw [show (fun x : Char × Str => field x.1 x.2) = fun x => field (id x).1 (id x).2 from rfl,
    hfields, Option.map_some, Option.some.injEq]
  by_cases hk : key = [] <;> by_cases hv : value = [] <;>
    simp [entryFields, bodyOf, hk, hv, htags, htags.symm]

theorem mapM_parseEntry (ps : List (Str × Str)) :
    (ps.map fun e => (Char.ofNat 10, serializeEntry e)).mapM (fun x => parseEntry x.2) =
      some ps := by
  induction ps with
  | nil => rfl
  | cons e ps ih =>
    rw [List.map_cons, List.mapM_cons, parseEntry_serializeEntry, ih]
    rfl

theorem parse_serialize (ps : List (Str × Str)) : parse (serialize ps) = some ps := by
  have hfields := readFields_flatMap (fun e => (Char.ofNat 10, serializeEntry e)) ps
    (length_le_flatMap (fun e => (Char.ofNat 10, serializeEntry e)) ps)
  have htag : (ps.map fun e => (Char.ofNat 10, serializeEntry e)).filter
      (fun x => x.1 = Char.ofNat 10) = ps.map fun e => (Char.ofNat 10, serializeEntry e) := by
    apply List.filter_eq_self.mpr
    intro x hx
    obtain ⟨e, _, rfl⟩ := List.mem_map.mp hx
    exact decide_eq_true rfl
  unfold parse serialize
  rw [hfields, Option.bind_eq_bind, Option.bind_some, htag]
  exact mapM_parseEntry ps

/-- The codec of `RaftSnapshotData`. -/
def codec : SnapshotCodec := { serialize := serialize, parse := parse }

theorem faithful_codec : codec.Faithful := parse_serialize

end SnapshotData

/-! ## The round trip -/

/-- The store holds this map, and its iteration yields these pairs. -/
structure Keeps (s : StrStore) (m : StrMap) (ps : List (Str × Str)) : Prop where
  represents : s.Represents m
  pairs : KVStore.pairs s = some ps

theorem pairs_of_represents {s : StrStore} {m : StrMap} (h : s.Represents m) :
    ∃ ps, SortedMap.Lists m ps ∧ Keeps s m ps := by
  obtain ⟨cs, hrep, rfl⟩ := h
  exact ⟨cs.map Cell.pair, SortedMap.lists_ofList (Skiplist.pairwise_pair hrep.sorted),
    ⟨cs, hrep, rfl⟩, KVStore.pairs_of_rep hrep⟩

/-- The pairs depend on the map alone, not on how the store has come to hold it. -/
theorem Keeps.of_represents {s t : StrStore} {m : StrMap} {ps : List (Str × Str)}
    (h : Keeps s m ps) (ht : t.Represents m) : Keeps t m ps :=
  ⟨ht, ((KVStore.pairs_eq_iff ht h.represents).mpr rfl).trans h.pairs⟩

namespace RaftClerk

/-- What the snapshot of a clerk's store is good for. -/
structure RoundTrips (codec : SnapshotCodec) (a : RaftClerk) (m : StrMap)
    (ps : List (Str × Str)) (data : Str) : Prop where
  lists : SortedMap.Lists m ps
  keeps : Keeps a.kvStore m ps
  /-- Every other store with the same contents has the same entries. -/
  same : ∀ t : StrStore, IsStore t → t.Represents m → KVStore.pairs t = some ps
  generated : ∀ g, (a.generateSnapshot codec true g).1 = true ∧
    (a.generateSnapshot codec true g).2.snapshotFile = some data
  /-- `_ApplySnapshot`, whatever the store held before. -/
  applied : ∀ (b : RaftClerk) (draws : List (List Bool)) (q : ApplySnapshotRequestMessage),
    IsStore b.kvStore → q.snapshot = data →
      (b.applySnapshot codec true draws q).1 = true ∧
        Keeps (b.applySnapshot codec true draws q).2.kvStore m ps
  /-- `_InstallSnapshotFromPersist` -/
  installed : ∀ draws : List (List Bool), ∃ t,
    installSnapshotFromPersist codec draws (some data) = some t ∧ Keeps t m ps

/-- The data of a snapshot round-trips, for every store that has been reached by operations
with any random levels. -/
theorem snapshot_roundTrips (codec : SnapshotCodec) (hc : codec.Faithful) (a : RaftClerk)
    (ha : IsStore a.kvStore) : ∃ m ps data, a.RoundTrips codec m ps data := by
  obtain ⟨m, hm⟩ := ha.represents
  obtain ⟨ps, hlists, hkeeps⟩ := pairs_of_represents hm
  refine ⟨m, ps, codec.serialize ps, hlists, hkeeps, ?_, ?_, ?_, ?_⟩
  · exact fun t _ ht => (hkeeps.of_represents ht).pairs
  · intro g
    unfold generateSnapshot
    rw [hkeeps.pairs]
    exact ⟨rfl, rfl⟩
  · intro b draws q hb hq
    obtain ⟨m', hm'⟩ := hb.represents
    obtain ⟨s, hclear, hempty⟩ := clear_spec hm'
    obtain ⟨t, hinstall, ht⟩ := installEntries_spec hempty ps draws
    rw [hlists.insertAll] at ht
    have hrun : b.kvStore.clear.bind (installEntries ps draws) = some t := by
      rw [hclear]
      exact hinstall
    unfold applySnapshot
    rw [if_pos rfl, hq, hc ps]
    simp only
    rw [hrun]
    exact ⟨rfl, hkeeps.of_represents ht⟩
  · intro draws
    obtain ⟨t, hinstall, ht⟩ := installEntries_spec newStore_represents ps draws
    rw [hlists.insertAll] at ht
    refine ⟨t, ?_, hkeeps.of_represents ht⟩
    rw [installSnapshotFromPersist, hc ps]
    exact hinstall

/-- The clerk of a new node, with this store. -/
def withStore (s : StrStore) : Option RaftClerk :=
  (init SnapshotData.codec [] 1 [0, 1, 2] [] none none).map fun c => { c with kvStore := s }

/-- A store that has been written, overwritten and read at an absent key. -/
theorem snapshot_roundTrips_three :
    ∃ s : StrStore, IsStore s ∧
      KVStore.pairs s = some [(['a'], ['2']), (['b'], []), (['c'], ['3'])] ∧
      ∃ a ∈ withStore s, ∃ m ps data, a.RoundTrips SnapshotData.codec m ps data := by
  let ops : List (StoreOp Str Str) := [.insert ['c'] ['3'] [true], .assign ['a'] ['1'] [],
    .assign ['a'] ['2'] [false, true], .index ['b'] [true, true]]
  cases hrun : newStore.run ops with
  | none =>
    have hsome : (newStore.run ops).isSome = true := by decide +kernel
    rw [hrun] at hsome
    cases hsome
  | some x =>
    have hstore : IsStore x.2 := ⟨15, ops, x.1, hrun⟩
    have hpairs : (newStore.run ops).bind (fun x => KVStore.pairs x.2) =
        some [(['a'], ['2']), (['b'], []), (['c'], ['3'])] := by decide +kernel
    rw [hrun] at hpairs
    exact ⟨x.2, hstore, hpairs, _, rfl,
      snapshot_roundTrips SnapshotData.codec SnapshotData.faithful_codec _ hstore⟩

end RaftClerk

end WWRaftKV
