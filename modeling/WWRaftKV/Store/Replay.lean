/-
Replaying commands that a store already has.

A put depends on the commands before it, so a command cannot simply be repeated later.  What
a list of commands does to one key can: it leaves the key alone, fills it when it is absent, or
sets it.  A store that has the commands of `l1` ends, after all of `l1` and `l2`, where a
store without them ends.
-/
import WWRaftKV.General.Patch
import WWRaftKV.Store.Replica

namespace WWRaftKV

open SortedMap Patch

namespace RaftClerk

/-! ## What a command does to a key -/

def patchOf (command : Str) : Str → Patch Str :=
  let w := Words.read command
  if w.op = ['p', 'u', 't'] ∧ w.key ≠ [] ∧ w.value ≠ [] then onlyAt w.key (fill w.value)
  else if w.op = ['u', 'p', 'd', 'a', 't', 'e'] ∧ w.key ≠ [] ∧ w.value ≠ [] then
    onlyAt w.key (set (some w.value))
  else if w.op = ['d', 'e', 'l', 'e', 't', 'e'] ∧ w.key ≠ [] then onlyAt w.key (set none)
  else fun _ => keep

def patchesOf : List Str → Str → Patch Str
  | [], _ => keep
  | command :: rest, k => (patchOf command k).comp (patchesOf rest k)

/-- A put inserts where the key is absent. -/
theorem specCommand_put {command : Str} (m : StrMap)
    (hop : (Words.read command).op = ['p', 'u', 't'])
    (hw : (Words.read command).key ≠ [] ∧ (Words.read command).value ≠ []) :
    (specCommand m command).2 =
      if (lookup (Words.read command).key m).isSome then m
      else insert (Words.read command).key (Words.read command).value m := by
  unfold specCommand
  simp only [if_pos hop, if_pos hw]
  split <;> rfl

/-- A command that is refused leaves every key alone. -/
theorem keyed_refused {command : Str} (hp : patchOf command = fun _ => keep)
    (hs : ∀ m, (specCommand m command).2 = m) :
    Keyed (fun m => (specCommand m command).2) (patchOf command) := by
  rw [hp]
  simp only [hs]
  exact keyed_id

theorem keyed_specCommand (command : Str) :
    Keyed (fun m => (specCommand m command).2) (patchOf command) := by
  by_cases hput : (Words.read command).op = ['p', 'u', 't']
  · by_cases hw : (Words.read command).key ≠ [] ∧ (Words.read command).value ≠ []
    · rw [patchOf, if_pos ⟨hput, hw⟩]
      simp only [specCommand_put _ hput hw]
      exact keyed_insertNew _ _
    · apply keyed_refused
      · simp [patchOf, hput, hw]
      · simp [specCommand, hput, hw]
  by_cases hupd : (Words.read command).op = ['u', 'p', 'd', 'a', 't', 'e']
  · by_cases hw : (Words.read command).key ≠ [] ∧ (Words.read command).value ≠ []
    · have hset : patchOf command =
          onlyAt (Words.read command).key (set (some (Words.read command).value)) := by
        simp [patchOf, hupd, hw]
      rw [hset]
      simp only [specCommand, if_neg hput, if_pos hupd, if_pos hw]
      exact keyed_insert _ _
    · apply keyed_refused
      · simp [patchOf, hupd, hw]
      · simp [specCommand, hupd, hw]
  by_cases hdel : (Words.read command).op = ['d', 'e', 'l', 'e', 't', 'e']
  · by_cases hw : (Words.read command).key ≠ []
    · have hset : patchOf command = onlyAt (Words.read command).key (set none) := by
        simp [patchOf, hdel, hw]
      rw [hset]
      simp only [specCommand, if_neg hput, if_neg hupd, if_pos hdel, if_pos hw]
      exact keyed_erase _
    · apply keyed_refused
      · simp [patchOf, hdel, hw]
      · simp [specCommand, hdel, hw]
  · apply keyed_refused
    · simp [patchOf, hput, hupd, hdel]
    · simp [specCommand, hput, hupd, hdel]

theorem keyed_specCommands (cs : List Str) :
    Keyed (fun m => (specCommands m cs).2) (patchesOf cs) := by
  induction cs with
  | nil => exact keyed_id
  | cons c cs ih => exact (keyed_specCommand c).comp ih

/-- On the map, commands that have been applied can be applied once more before the rest. -/
theorem specCommands_replay (m : StrMap) (cs ds : List Str) :
    (specCommands (specCommands m cs).2 (cs ++ ds)).2 = (specCommands m (cs ++ ds)).2 := by
  rw [specCommands_append, specCommands_append]
  dsimp only
  rw [(keyed_specCommands cs).twice m]

/-! ## The store -/

/-- Entries with the level draws of a run: the `k`-th entry gets `draws k`. -/
def drawn (entries : List RaftLogEntry) (draws : Nat → List Bool) :
    List (RaftLogEntry × List Bool) :=
  entries.zipIdx.map fun e => (e.1, draws e.2)

theorem commands_drawn (entries : List RaftLogEntry) (draws : Nat → List Bool) :
    (drawn entries draws).map (·.1.command) = entries.map (·.command) := by
  unfold drawn
  rw [List.map_map]
  show entries.zipIdx.map ((·.command) ∘ Prod.fst) = _
  rw [← List.map_map, List.zipIdx_map_fst]

/-- Entries that the store already has can be replayed before the later ones, with any level
draws: the store ends with the pairs that it would have had without the replay. -/
theorem replay_converges (s : StrStore) (hs : IsStore s) (l1 l2 : List RaftLogEntry)
    (draws again without : Nat → List Bool) :
    ∃ codes s1 codes' s2 codes'' s3 pairs,
      applyCommitLogs s (drawn l1 draws) = some (codes, s1) ∧
      applyCommitLogs s1 (drawn (l1 ++ l2) again) = some (codes', s2) ∧
      applyCommitLogs s (drawn (l1 ++ l2) without) = some (codes'', s3) ∧
      KVStore.pairs s2 = some pairs ∧ KVStore.pairs s3 = some pairs := by
  obtain ⟨m, hm⟩ := hs.represents
  obtain ⟨s1, hrun1, h1⟩ := applyCommitLogs_spec hm (drawn l1 draws)
  obtain ⟨s2, hrun2, h2⟩ := applyCommitLogs_spec h1 (drawn (l1 ++ l2) again)
  obtain ⟨s3, hrun3, h3⟩ := applyCommitLogs_spec hm (drawn (l1 ++ l2) without)
  have hmap := specCommands_replay m (l1.map (·.command)) (l2.map (·.command))
  rw [← List.map_append] at hmap
  rw [commands_drawn, commands_drawn, hmap] at h2
  rw [commands_drawn] at h3
  have hpairs : KVStore.pairs s2 = KVStore.pairs s3 := (KVStore.pairs_eq_iff h2 h3).mpr rfl
  obtain ⟨cs, hrep, _⟩ := h3
  have hsome := KVStore.pairs_of_rep hrep
  exact ⟨_, s1, _, s2, _, s3, _, hrun1, hrun2, hrun3, hpairs.trans hsome, hsome⟩

def entryOfText (text : String) : RaftLogEntry := { term := 1, command := text.toList }

/-- The second put does nothing before the deletion and would do something after it. -/
theorem replay_converges_puts :
    ∃ codes s1 codes' s2 codes'' s3 pairs,
      applyCommitLogs newStore (drawn [entryOfText "put a 1", entryOfText "put a 2"]
        fun _ => []) = some (codes, s1) ∧
      applyCommitLogs s1 (drawn ([entryOfText "put a 1", entryOfText "put a 2"] ++
        [entryOfText "delete a", entryOfText "put b 3"]) fun _ => [true]) =
          some (codes', s2) ∧
      applyCommitLogs newStore (drawn ([entryOfText "put a 1", entryOfText "put a 2"] ++
        [entryOfText "delete a", entryOfText "put b 3"]) fun _ => []) = some (codes'', s3) ∧
      KVStore.pairs s2 = some pairs ∧ KVStore.pairs s3 = some pairs :=
  replay_converges newStore isStore_new _ _ _ _ _

end RaftClerk

end WWRaftKV
