/-
What one event does to the clerk.

The clerk applies entries, writes a snapshot, installs one, sends one, or does something
that leaves its store and its file alone.  Every event of a node is a turn of the core, an
arrival, or such a step of the clerk.
-/
import WWRaftKV.Node.Labels

namespace WWRaftKV

open Process (Turned turned_react)

namespace RaftClerk

/-! ## What a step of the clerk leaves alone -/

/-- The entries applied, the store, the file and the records are as they were. -/
structure SameData (c c' : RaftClerk) : Prop where
  applied : c'.applied = c.applied
  kvStore : c'.kvStore = c.kvStore
  snapshotFile : c'.snapshotFile = c.snapshotFile
  written : c'.written = c.written
  shipped : c'.shipped = c.shipped

section Clerk

variable {L : LogOf} {a : Int} {c c' : RaftClerk}

theorem SameData.refl (c : RaftClerk) : SameData c c := ⟨rfl, rfl, rfl, rfl, rfl⟩

theorem sameData_answer (c : RaftClerk) (key : Str × Nat) (cause : Option Nat)
    (status : StatusCode) (payload : Str) : SameData c (c.answer key cause status payload) := by
  unfold RaftClerk.answer
  split <;> exact ⟨rfl, rfl, rfl, rfl, rfl⟩

/-- What the clerk has done with entries: the store is the map after the last of them. -/
structure Applies (L : LogOf) (a : Int) (xs : List (Int × RaftLogEntry)) (c c' : RaftClerk) :
    Prop where
  snapshotFile : c'.snapshotFile = c.snapshotFile
  written : c'.written = c.written
  shipped : c'.shipped = c.shipped
  done : c'.alive = true → c'.applied = c.applied ++ xs ∧
    c'.kvStore.Represents (mapAt L (a + c'.applied.length))

theorem applies_applyEntry {x : Int × RaftLogEntry} (ha : 0 ≤ a)
    (hstore : c.kvStore.Represents (mapAt L (a + c.applied.length)))
    (hindex : x.1 = a + 1 + c.applied.length) (hentry : x.2.core = L x.1) (draws : List Bool) :
    Applies L a [x] c (c.applyEntry x draws) := by
  obtain ⟨t, hrun, ht⟩ := applyCommand_spec hstore x.2.command draws
  have hnext : mapAt L (a + ((c.applied ++ [x]).length : Int)) =
      (specCommand (mapAt L (a + c.applied.length)) x.2.command).2 := by
    have hcommand : x.2.command = (L (a + c.applied.length + 1)).command := by
      rw [show a + (c.applied.length : Int) + 1 = x.1 by omega, ← hentry]
      rfl
    have hlength : a + ((c.applied ++ [x]).length : Int) = a + c.applied.length + 1 := by
      rw [List.length_append, List.length_singleton]
      omega
    rw [hlength, mapAt_succ L (by omega), hcommand]
  obtain ⟨c₁, hc₁⟩ : ∃ c₁ : RaftClerk,
      c₁ = { c with kvStore := t, applied := c.applied ++ [x] } := ⟨_, rfl⟩
  have happlied : c₁.applied = c.applied ++ [x] := by rw [hc₁]
  have hone : Applies L a [x] c c₁ := by
    refine ⟨by rw [hc₁], by rw [hc₁], by rw [hc₁], fun _ => ⟨happlied, ?_⟩⟩
    rw [happlied, hnext, hc₁]
    exact ht
  unfold RaftClerk.applyEntry
  rw [hrun]
  dsimp only
  rw [← hc₁]
  split
  · have hsame := sameData_answer c₁ (x.2.uuid, x.2.sequenceId) (c₁.writer x)
      (specCommand (mapAt L (a + c.applied.length)) x.2.command).1 []
    refine ⟨hsame.snapshotFile.trans hone.snapshotFile, hsame.written.trans hone.written,
      hsame.shipped.trans hone.shipped, fun _ => ⟨hsame.applied.trans happlied, ?_⟩⟩
    rw [hsame.applied, hsame.kvStore, happlied, hnext, hc₁]
    exact ht
  · exact hone

theorem applies_applyLoop {xs : List (Int × RaftLogEntry)} (ha : 0 ≤ a)
    (hstore : c.kvStore.Represents (mapAt L (a + c.applied.length)))
    (hindex : ∀ k x, xs[k]? = some x → x.1 = a + 1 + (c.applied.length + k : Nat))
    (hentry : ∀ x ∈ xs, x.2.core = L x.1) (draws : List (List Bool)) :
    Applies L a xs c (c.applyLoop xs draws) := by
  induction xs generalizing c draws with
  | nil => exact ⟨rfl, rfl, rfl, fun _ => ⟨(List.append_nil _).symm, hstore⟩⟩
  | cons x xs ih =>
    have hone := applies_applyEntry ha hstore (hindex 0 x rfl)
      (hentry x List.mem_cons_self) (draws.headD [])
    rw [RaftClerk.applyLoop]
    by_cases halive : (c.applyEntry x (draws.headD [])).alive = true
    · obtain ⟨happlied, hstore'⟩ := hone.done halive
      have hrest := ih hstore' (by
        intro k y hy
        rw [hindex (k + 1) y hy, happlied, List.length_append, List.length_singleton]
        omega) (fun y hy => hentry y (List.mem_cons_of_mem _ hy)) draws.tail
      rw [if_pos halive]
      refine ⟨hrest.snapshotFile.trans hone.snapshotFile, hrest.written.trans hone.written,
        hrest.shipped.trans hone.shipped, fun hdone => ?_⟩
      obtain ⟨happlied', hrep⟩ := hrest.done hdone
      refine ⟨?_, hrep⟩
      rw [happlied', happlied, List.append_assoc]
      rfl
    · rw [if_neg halive]
      exact ⟨hone.snapshotFile, hone.written, hone.shipped, fun hdone => absurd hdone halive⟩

/-- A response to a client, when a read is for a key that is there. -/
theorem sameData_respond {m : KVOperationResponseMessage} {μ : StrMap}
    (hstore : c.kvStore.Represents μ)
    (hread : m.success = true → m.opType = .get → c.kvStore.contains m.key = some true)
    (draws : List Bool) : SameData c (c.sendKVOperationResponse m draws) := by
  have hanswer : ∀ (ns : List Nat) (cause : Option Nat) (status : StatusCode) (payload : Str),
      SameData c (RaftClerk.answer { c with responding := ns } (m.uuid, m.seq) cause status
        payload) := by
    intro ns cause status payload
    have hsame := sameData_answer { c with responding := ns } (m.uuid, m.seq) cause status payload
    exact ⟨hsame.applied, hsame.kvStore, hsame.snapshotFile, hsame.written, hsame.shipped⟩
  unfold sendKVOperationResponse
  dsimp only
  split
  · exact hanswer _ _ _ _
  split
  · rename_i hsuccess
    split
    · rename_i hget
      have hcontains := hread hsuccess hget
      rw [KVStore.contains_spec m.key hstore, Option.some.injEq, Option.isSome_iff_exists]
        at hcontains
      obtain ⟨v, hv⟩ := hcontains
      rw [sendGet, KVStore.get_present m.key draws hstore hv]
      exact hanswer _ _ _ _
    · exact hanswer _ _ _ _
  · split
    · exact hanswer _ _ _ _
    · exact ⟨rfl, rfl, rfl, rfl, rfl⟩

/-- What the clerk does for a message, when its store is the one after the entries applied. -/
inductive Attends (codec : SnapshotCodec) (L : LogOf) (a : Int) (c : RaftClerk) :
    RaftMessage → Bool → RaftClerk → Prop
  | rests (m : RaftMessage) (b : Bool) (c' : RaftClerk) (hs : SameData c c')
      (hm : handedBy [m] = []) (hg : (clerkAnswer b m).bind (·.given) = none) :
      Attends codec L a c m b c'
  | applies (q : ApplyCommitLogsRequestMessage) (b : Bool) (c' : RaftClerk)
      (hx : ∀ x ∈ q.indexed, x.2.core = L x.1) (hc : Applies L a q.indexed c c') :
      Attends codec L a c (.applyCommitLogsRequest q) b c'
  | takes (q : GenerateSnapshotRequestMessage) (ps : List (Str × Str))
      (hps : SortedMap.insertAll ∅ ps = mapAt L (a + c.applied.length)) :
      Attends codec L a c (.generateSnapshotRequest q) true { c with
        snapshotFile := some (codec.serialize ps)
        written := c.written ++ [{ index := q.lastAppliedIndex
                                   term := q.lastAppliedTerm
                                   data := codec.serialize ps }] }
  | installs (q : ApplySnapshotRequestMessage) (s : StrStore)
      (hindex : q.lastIncludedIndex = a + c.applied.length)
      (hq : FollowsMsg codec L (.applySnapshotRequest q))
      (hs : s.Represents (mapAt L q.lastIncludedIndex)) :
      Attends codec L a c (.applySnapshotRequest q) true
        { c with snapshotFile := some q.snapshot, kvStore := s }
  | ships (q : RaftInstallSnapshotRequestMessage) (b : Bool) (data : Str)
      (hdata : c.snapshotFile = some data) :
      Attends codec L a c (.installSnapshotRequest q) b { c with
        shipped := c.shipped ++ [{ index := q.lastIncludedIndex
                                   term := q.lastIncludedTerm
                                   data := data }] }

theorem attends_attend {codec : SnapshotCodec} {opens : Bool} {m : RaftMessage} (ha : 0 ≤ a)
    (hstore : c.kvStore.Represents (mapAt L (a + c.applied.length)))
    (hindex : ∀ q, m = .applyCommitLogsRequest q → ∀ k x, q.indexed[k]? = some x →
      x.1 = a + 1 + (c.applied.length + k : Nat))
    (hfollows : FollowsMsg codec L m) (hserves : c.ServesMsg a opens m)
    (draws : List (List Bool)) :
    Attends codec L a c m (c.attend codec opens draws m).1 (c.attend codec opens draws m).2 := by
  cases m with
  | kvOperationResponse m =>
    exact .rests _ _ _ (sameData_respond hstore hserves (draws.headD [])) rfl rfl
  | applyCommitLogsRequest m =>
    apply Attends.applies m true _ hfollows
    exact applies_applyLoop ha hstore (hindex m rfl) hfollows draws
  | generateSnapshotRequest m =>
    obtain ⟨ps, hpairs, hinsert⟩ := insertAll_pairs hstore
    unfold RaftClerk.attend generateSnapshot
    rw [hpairs]
    dsimp only
    split
    · exact .takes m ps hinsert
    · exact .rests _ _ _ (SameData.refl c) rfl rfl
  | applySnapshotRequest m =>
    obtain ⟨ps, hparse, hinsert⟩ := hfollows.data
    obtain ⟨s, hclear, hempty⟩ := clear_spec hstore
    obtain ⟨s', hinstall, hnew⟩ := installEntries_spec hempty ps draws
    have hrun : c.kvStore.clear.bind (installEntries ps draws) = some s' := by
      rw [hclear]
      exact hinstall
    unfold RaftClerk.attend applySnapshot
    dsimp only at hparse ⊢
    simp only [hparse, hrun]
    split
    · apply Attends.installs m s' (hserves ‹_›) hfollows
      rw [← hinsert]
      exact hnew
    · exact .rests _ _ _ (SameData.refl c) rfl rfl
  | installSnapshotRequest m =>
    unfold RaftClerk.attend sendInstallSnapshotRequest
    dsimp only
    split
    · split
      · exact .ships m true _ ‹_›
      · exact .rests _ _ _ (SameData.refl c) rfl rfl
    · exact .rests _ _ _ (SameData.refl c) rfl rfl
  | _ => exact .rests _ _ _ (SameData.refl c) rfl rfl

end Clerk

/-! ## Events -/

theorem sameData_observe (c : RaftClerk) (e : ClerkEvent) : SameData c (c.observe e) := by
  unfold observe
  split
  · exact ⟨rfl, rfl, rfl, rfl, rfl⟩
  · split
    · unfold note
      split <;> exact ⟨rfl, rfl, rfl, rfl, rfl⟩
    · exact SameData.refl c
  · exact SameData.refl c

/-- An event of a node: the core takes a turn, something arrives that is not from the
clerk, or the clerk takes a message. -/
inductive Happens (codec : SnapshotCodec) (c : RaftClerk) (e : ClerkEvent) :
    RaftClerk → Process → Prop
  | turn (t : Input) (xs : List Item) (c' : RaftClerk) (p' : Process)
      (ht : c.process.turn (e.event true) = some t) (hs : SameData c c')
      (hout : c.process.outter = xs ++ p'.outter) (hxs : xs.map (·.msg) = t.taken)
      (hturned : p'.alive = true → Turned c.process p' t) : Happens codec c e c' p'
  | arrives (xs : List Item) (c' : RaftClerk) (p' : Process) (hs : SameData c c')
      (hraft : p'.raft = c.process.raft) (hhistory : p'.history = c.process.history)
      (hinner : p'.inner = c.process.inner) (hout : p'.outter = c.process.outter ++ xs)
      (hxs : ∀ x ∈ xs, x.msg.isLocal = false) : Happens codec c e c' p'
  | attends (opens : Bool) (draws : List (List Bool)) (x : Item) (xs : List Item)
      (he : e = .clerk opens draws) (hinner : c.process.inner = x :: xs) :
      Happens codec c e (c.attend codec opens draws x.msg).2
        ({ c.process with inner := xs }.serve (c.attend codec opens draws x.msg).1 x)

theorem happens_of_stepAlive {codec : SnapshotCodec} {c : RaftClerk} {e : ClerkEvent}
    {p' : Process} (hp : c.process.stepAlive (e.event (c.work codec e).1) = some p') :
    Happens codec c e (c.work codec e).2 p' := by
  cases e with
  | electionTimeout =>
    obtain rfl := Option.some.inj hp
    exact .turn .electionTimeout [] _ _ rfl (SameData.refl c) rfl rfl
      fun halive => turned_react c.process c.process.outter _ none halive
  | heartbeatTimeout =>
    obtain rfl := Option.some.inj hp
    exact .turn .heartbeatTimeout [] _ _ rfl (SameData.refl c) rfl rfl
      fun halive => turned_react c.process c.process.outter _ none halive
  | handle =>
    cases hout : c.process.outter with
    | nil => simp [ClerkEvent.event, Process.stepAlive, hout] at hp
    | cons x xs =>
      simp only [ClerkEvent.event, Process.stepAlive, hout, Option.some.injEq] at hp
      subst hp
      apply Happens.turn (.message x.msg) [x]
      · simp [ClerkEvent.event, Process.turn, hout]
      · exact sameData_observe c .handle
      · rw [hout]
        rfl
      · rfl
      · exact fun halive => turned_react c.process xs _ x.cause halive
  | request conn m =>
    obtain ⟨m', hm', rfl⟩ := Option.map_eq_some_iff.mp hp
    refine .arrives [{ msg := m', cause := some c.process.requests }] _ _ (SameData.refl c)
      rfl rfl rfl rfl ?_
    intro x hx
    rw [List.mem_singleton.mp hx]
    exact Process.withSeq_not_isLocal hm'
  | lostRequest conn =>
    obtain rfl := Option.some.inj hp
    refine .arrives [] _ _ (SameData.refl c) rfl rfl rfl (List.append_nil _).symm ?_
    intro x hx
    cases hx
  | response m =>
    simp only [ClerkEvent.event, Process.stepAlive] at hp
    split at hp
    case isFalse => cases hp
    rename_i hm
    obtain rfl := Option.some.inj hp
    refine .arrives [{ msg := m }] _ _ (SameData.refl c) rfl rfl rfl rfl ?_
    intro x hx
    rw [List.mem_singleton.mp hx]
    exact Process.isPeerResponse_not_isLocal hm
  | operation m =>
    obtain rfl := Option.some.inj hp
    refine .arrives [{ msg := .kvOperationRequest m }] _ _
      (sameData_observe c (.operation m)) rfl rfl rfl rfl ?_
    intro x hx
    rw [List.mem_singleton.mp hx]
    rfl
  | clerk opens draws =>
    cases hinner : c.process.inner with
    | nil => simp [ClerkEvent.event, Process.stepAlive, hinner] at hp
    | cons x xs =>
      have hwork : c.work codec (.clerk opens draws) = c.attend codec opens draws x.msg := by
        unfold work
        rw [hinner]
      rw [hwork] at hp ⊢
      simp only [ClerkEvent.event, Process.stepAlive, hinner, Option.some.injEq] at hp
      subst hp
      exact .attends opens draws x xs rfl hinner

end RaftClerk

end WWRaftKV
