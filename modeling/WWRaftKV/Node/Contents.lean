/-
The store after the first entries of a log.

`mapAt L i` is the map that the commands of the entries `1..i` make out of an empty one.  A
snapshot is exact for an index when its pairs make that map, and its term is that of the
entry there.
-/
import WWRaftKV.Node.Clerk
import WWRaftKV.Node.HandOver

namespace WWRaftKV

open Raft (applyWindow)

/-! ## Entries -/

/-- A log, by index. -/
abbrev LogOf := Int → RaftPersistLogEntry

/-- The map after the entries `1..i`. -/
def mapAt (L : LogOf) (i : Int) : StrMap :=
  (RaftClerk.specCommands ∅ ((applyWindow 0 i).map fun j => (L j).command)).2

theorem mapAt_zero (L : LogOf) : mapAt L 0 = ∅ := rfl

theorem mapAt_succ (L : LogOf) {i : Int} (hi : 0 ≤ i) :
    mapAt L (i + 1) = (RaftClerk.specCommand (mapAt L i) (L (i + 1)).command).2 := by
  have hlast : applyWindow i (i + 1) = [i + 1] := by
    rw [applyWindow, show (i + 1 - i).toNat = 1 by omega, List.range_one]
    simp
  unfold mapAt
  rw [← applyWindow_append hi (Int.le_add_one (Int.le_refl i)), hlast, List.map_append,
    RaftClerk.specCommands_append]
  rfl

/-! ## Snapshots -/

/-- What is parsed is what was serialized. -/
def SnapshotCodec.Faithful (codec : SnapshotCodec) : Prop :=
  ∀ ps, codec.parse (codec.serialize ps) = some ps

/-- The data is the store after the entries `1..index`, and the term is that of the last. -/
structure Labelled.Exact (codec : SnapshotCodec) (L : LogOf) (x : Labelled) : Prop where
  data : ∃ ps, codec.parse x.data = some ps ∧ SortedMap.insertAll ∅ ps = mapAt L x.index
  term : x.term = (L x.index).term

namespace RaftClerk

variable {codec : SnapshotCodec} {s : StrStore} {m : StrMap} {ps : List (Str × Str)}

/-- The snapshot of a store. -/
theorem insertAll_pairs (h : s.Represents m) :
    ∃ ps, KVStore.pairs s = some ps ∧ SortedMap.insertAll ∅ ps = m := by
  obtain ⟨cs, hrep, rfl⟩ := h
  refine ⟨_, KVStore.pairs_of_rep hrep, ?_⟩
  exact SortedMap.insertAll_empty (Skiplist.pairwise_pair hrep.sorted)

/-- The store of a snapshot. -/
theorem installEntries_spec (h : s.Represents m) (ps : List (Str × Str))
    (draws : List (List Bool)) :
    ∃ t, installEntries ps draws s = some t ∧ t.Represents (SortedMap.insertAll m ps) := by
  induction ps generalizing s m draws with
  | nil => exact ⟨s, rfl, h⟩
  | cons e ps ih =>
    obtain ⟨t, hrun, ht⟩ := KVStore.update_spec e.1 e.2 (draws.headD []) h
    obtain ⟨u, hrest, hu⟩ := ih ht draws.tail
    refine ⟨u, ?_, hu⟩
    rw [installEntries, hrun]
    exact hrest

theorem clear_spec (h : s.Represents m) : ∃ t, s.clear = some t ∧ t.Represents ∅ := by
  obtain ⟨cs, hrep, rfl⟩ := h
  obtain ⟨t, hrun, ht⟩ := hrep.clear
  exact ⟨t, hrun, [], ht, rfl⟩

theorem newStore_represents : newStore.Represents ∅ :=
  ⟨[], Skiplist.make_rep 15, rfl⟩

end RaftClerk

end WWRaftKV
