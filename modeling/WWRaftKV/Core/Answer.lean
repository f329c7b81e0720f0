/-
The answers of a core to the requests of its peers.

`Says k c` counts the sequence ids that a command answers under.  Every handler that
returns answers the message it took exactly once, under the id of that message, and no
other handler answers at all.
-/
import WWRaftKV.Core.LogStep

namespace WWRaftKV

open Command RaftM

/-! ## Sequence ids on the way -/

/-- The id under which the core still has to answer for a message of `_Outter_channel`. -/
def RaftMessage.awaits : RaftMessage → Option Nat
  | .requestVoteRequest m => some m.seq
  | .appendEntriesRequest m => some m.seq
  | .installSnapshotRequest m => some m.seq
  | .applySnapshotResponse m => some m.seq
  | _ => none

/-- The id that a message of `_Inner_channel` answers, or will once the clerk has
installed the snapshot. -/
def RaftMessage.answers : RaftMessage → Option Nat
  | .requestVoteResponse m => some m.seq
  | .appendEntriesResponse m => some m.seq
  | .installSnapshotResponse m => some m.seq
  | .applySnapshotRequest m => some m.seq
  | _ => none

def Input.awaits : Input → Option Nat
  | .message m => m.awaits
  | _ => none

namespace Scope

def said (s : Scope) : List Nat := (pushedOf s.effects).filterMap RaftMessage.answers

theorem said_push (s : Scope) (m : RaftMessage) :
    said { s with effects := s.effects ++ [.push m] } = s.said ++ m.answers.toList := by
  unfold said
  rw [pushedOf_emit, List.filterMap_append]
  cases h : m.answers <;> simp [h]

theorem said_persist (s : Scope) (d : RaftPersistData) :
    said { s with effects := s.effects ++ [.persist d] } = s.said := by
  unfold said
  rw [pushedOf_save]

end Scope

namespace Raft

/-! ## Commands -/

/-- When the command returns, it has answered under the ids `k`. -/
def Says {α : Type} (k : List Nat) (c : RaftM α) : Prop :=
  ∀ xs, Triple (fun s => s.said = xs) c (fun _ s => s.said = xs ++ k) fun _ => True

/-- The command answers nothing. -/
abbrev Silent {α : Type} (c : RaftM α) : Prop := Says [] c

section Says

variable {α β : Type} {j k : List Nat} {c : RaftM α} {f : α → RaftM β}

theorem silent_pure (a : α) : Silent (pure a : RaftM α) := by
  intro xs
  apply Triple.pure
  intro s h
  rw [h, List.append_nil]

theorem says_bind (hc : Says j c) (hf : ∀ a, Says k (f a)) : Says (j ++ k) (c >>= f) := by
  intro xs
  apply Triple.bind (hc xs)
  intro a
  have h := hf a (xs ++ j)
  rw [List.append_assoc] at h
  exact h

theorem says_after (hc : Silent c) (hf : ∀ a, Says k (f a)) : Says k (c >>= f) :=
  says_bind hc hf

theorem says_before (hc : Says k c) (hf : ∀ a, Silent (f a)) : Says k (c >>= f) := by
  have h := says_bind hc hf
  rwa [List.append_nil] at h

theorem says_ite {p : Prop} [Decidable p] {d : RaftM α} (hc : Says k c) (hd : Says k d) :
    Says k (if p then c else d) := by
  intro xs
  apply Triple.ite
  · intro _
    exact hc xs
  · intro _
    exact hd xs

theorem says_fields {f : Raft → RaftM α} (h : ∀ r, Says k (f r)) : Says k (fields >>= f) := by
  intro xs
  apply triple_fields
  intro r
  apply (h r xs).pre
  intro s hs
  exact hs.1

theorem silent_assign (f : Raft → Raft) : Silent (assign f) := by
  intro xs
  apply triple_assign
  intro s h
  rw [List.append_nil]
  exact h

theorem silent_persist : Silent persist := by
  intro xs
  apply triple_persist
  intro s h
  rw [Scope.said_persist, h, List.append_nil]

theorem says_push (m : RaftMessage) : Says m.answers.toList (push m) := by
  intro xs
  apply triple_push
  intro s h
  rw [Scope.said_push, h]

theorem silent_orThrow (x : Option α) : Silent (orThrow x) := by
  intro xs
  apply triple_orThrow
  · intro a s _ h
    rw [h, List.append_nil]
  · intro _ s _
    trivial

theorem silent_forM {f : α → RaftM PUnit} (h : ∀ a, Silent (f a)) (as : List α) :
    Silent (as.forM f) := by
  induction as with
  | nil => exact silent_pure _
  | cons a as ih => exact says_after (h a) fun _ => ih

end Says

/-! ## Helpers of the handlers -/

theorem silent_becomeFollower (l : Int) (t : Nat) : Silent (becomeFollower l t) :=
  says_after (silent_assign _) fun _ => silent_persist

theorem silent_observeTerm (l : Int) (t : Nat) : Silent (observeTerm l t) := by
  apply says_fields
  intro r
  exact says_ite (silent_becomeFollower l t) (silent_pure ())

theorem silent_becomeCandidate : Silent becomeCandidate := by
  apply says_after (silent_assign _)
  intro _
  apply says_after silent_persist
  intro _
  apply says_fields
  intro r
  apply silent_forM
  intro p
  exact says_ite (silent_pure ()) (says_push (requestVoteTo r p))

theorem silent_sendAppendEntriesTo (b : Bool) (p : RaftPeer) :
    Silent (sendAppendEntriesTo b p) := by
  apply says_fields
  intro r
  apply says_ite (silent_pure ())
  apply says_ite (says_push (.installSnapshotRequest _))
  apply says_after (silent_orThrow _)
  intro t
  exact says_push (.appendEntriesRequest _)

theorem silent_sendAppendEntries (b : Bool) : Silent (sendAppendEntries b) := by
  apply says_fields
  intro r
  exact silent_forM (silent_sendAppendEntriesTo b) r.peers

theorem silent_becomeLeader : Silent becomeLeader := by
  apply says_after (silent_assign _)
  intro _
  apply says_after silent_persist
  intro _
  apply says_after (silent_assign _)
  intro _
  exact silent_sendAppendEntries true

theorem silent_applyCommitLogs : Silent applyCommitLogs := by
  apply says_fields
  intro r
  apply says_ite (silent_pure ())
  apply says_after (silent_assign _)
  intro _
  apply says_after (silent_orThrow _)
  intro es
  exact says_push (.applyCommitLogsRequest _)

theorem silent_generateSnapshot : Silent generateSnapshot := by
  apply says_fields
  intro r
  apply says_after (silent_orThrow _)
  intro t
  exact says_push (.generateSnapshotRequest _)

theorem silent_checkIfNeedSnapshot : Silent checkIfNeedSnapshot := by
  apply says_fields
  intro r
  apply says_ite (silent_pure ())
  apply says_after (silent_assign _)
  intro _
  exact says_ite silent_generateSnapshot (silent_assign _)

theorem silent_syncLogs (es : List RaftLogEntry) : Silent (syncLogs es) := by
  apply says_ite (silent_pure ())
  apply says_after (silent_assign _)
  intro _
  exact says_after silent_persist fun _ => silent_assign _

theorem silent_followCommit (c : Int) : Silent (followCommit c) := by
  apply says_fields
  intro r
  apply says_ite _ (silent_pure ())
  exact says_after (silent_assign _) fun _ => silent_applyCommitLogs

theorem silent_commitMajority : Silent commitMajority := by
  apply says_fields
  intro r
  apply says_after (silent_orThrow _)
  intro t
  apply says_ite _ (silent_pure ())
  apply says_after (silent_assign _)
  intro _
  exact says_after silent_applyCommitLogs fun _ => silent_checkIfNeedSnapshot

/-! ## Handlers of requests -/

theorem says_handleRequestVoteRequest (m : RaftRequestVoteRequestMessage) :
    Says [m.seq] (handleRequestVoteRequest m) := by
  apply says_fields
  intro r
  apply says_ite (says_push (.requestVoteResponse _))
  apply says_after (silent_observeTerm _ _)
  intro _
  apply says_fields
  intro r'
  apply says_ite (says_push (.requestVoteResponse _))
  apply says_ite (says_push (.requestVoteResponse _))
  apply says_after (silent_assign _)
  intro _
  exact says_after silent_persist fun _ => says_push (.requestVoteResponse _)

theorem says_rejectEntries (i : Int) (q : RaftAppendEntriesResponseMessage) :
    Says [q.seq] (rejectEntries i q) := by
  apply says_after (silent_assign _)
  intro _
  apply says_before (says_push (.appendEntriesResponse q))
  intro _
  apply says_fields
  intro r
  exact says_after (silent_orThrow _) fun _ => silent_pure ()

theorem says_handleAppendEntriesRequest (m : RaftAppendEntriesRequestMessage) :
    Says [m.seq] (handleAppendEntriesRequest m) := by
  apply says_fields
  intro r
  apply says_ite (says_push (.appendEntriesResponse _))
  apply says_after (silent_observeTerm _ _)
  intro _
  apply says_fields
  intro r'
  apply says_after (silent_orThrow _)
  intro matched
  apply says_ite
  · apply says_after (silent_syncLogs _)
    intro _
    apply says_after (silent_followCommit _)
    intro _
    apply says_fields
    intro r''
    exact says_push (.appendEntriesResponse _)
  · exact says_rejectEntries m.prevLogIndex _

theorem says_handleInstallSnapshotRequest (m : RaftInstallSnapshotRequestMessage) :
    Says [m.seq] (handleInstallSnapshotRequest m) := by
  apply says_fields
  intro r
  apply says_ite (says_push (.installSnapshotResponse _))
  apply says_after (silent_observeTerm _ _)
  intro _
  apply says_fields
  intro r'
  apply says_ite (says_push (.installSnapshotResponse _))
  exact says_push (.applySnapshotRequest _)

theorem says_handleApplySnapshot (m : ApplySnapshotResponseMessage) :
    Says [m.seq] (handleApplySnapshot m) := by
  apply says_ite (says_push (.installSnapshotResponse _))
  apply says_after (silent_assign _)
  intro _
  apply says_fields
  intro r
  apply says_after (silent_assign _)
  intro _
  exact says_push (.installSnapshotResponse _)

/-! ## Handlers of everything else -/

theorem silent_handleRequestVoteResponse (m : RaftRequestVoteResponseMessage) :
    Silent (handleRequestVoteResponse m) := by
  apply says_fields
  intro r
  apply says_ite (silent_pure ())
  apply says_ite (silent_becomeFollower _ _)
  apply says_ite (silent_pure ())
  apply says_ite _ (silent_pure ())
  apply says_after (silent_assign _)
  intro _
  apply says_fields
  intro r'
  exact says_ite silent_becomeLeader (silent_pure ())

theorem silent_handleAppendEntriesResponse (m : RaftAppendEntriesResponseMessage) :
    Silent (handleAppendEntriesResponse m) := by
  apply says_fields
  intro r
  apply says_ite (silent_pure ())
  apply says_ite (silent_becomeFollower _ _)
  cases r.findPeer m.fromId with
  | none => exact silent_pure ()
  | some p =>
    apply says_ite
    · exact says_after (silent_assign _) fun _ => silent_commitMajority
    · exact says_ite (silent_assign _) (silent_pure ())

theorem silent_handleInstallSnapshotResponse (m : RaftInstallSnapshotResponseMessage) :
    Silent (handleInstallSnapshotResponse m) := by
  apply says_fields
  intro r
  apply says_ite (silent_pure ())
  apply says_ite (silent_pure ())
  apply says_ite (silent_becomeFollower _ _)
  cases r.findPeer m.fromId with
  | none => exact silent_pure ()
  | some p => exact silent_assign _

theorem silent_handleApplyCommitLogs (m : ApplyCommitLogsResponseMessage) :
    Silent (handleApplyCommitLogs m) := by
  apply says_after (silent_assign _)
  intro _
  exact says_after (silent_assign _) fun _ => silent_checkIfNeedSnapshot

theorem silent_handleGenerateSnapshot (m : GenerateSnapshotResponseMessage) :
    Silent (handleGenerateSnapshot m) := by
  apply says_ite (silent_pure ())
  apply says_after (silent_assign _)
  intro _
  apply says_after (silent_assign _)
  intro _
  exact says_after silent_persist fun _ => silent_assign _

theorem silent_handleKVOperationRequest (m : KVOperationRequestMessage) :
    Silent (handleKVOperationRequest m) := by
  apply says_fields
  intro r
  apply says_ite (says_push (.kvOperationResponse _))
  cases commandText m.opType m.key m.value with
  | none => exact says_push (.kvOperationResponse _)
  | some text =>
    apply says_after (silent_assign _)
    intro _
    apply says_after silent_persist
    intro _
    exact says_after (silent_assign _) fun _ => silent_sendAppendEntries false

theorem says_handleMessage (m : RaftMessage) : Says m.awaits.toList (handleMessage m) := by
  cases m with
  | requestVoteRequest m => exact says_handleRequestVoteRequest m
  | requestVoteResponse m => exact silent_handleRequestVoteResponse m
  | appendEntriesRequest m => exact says_handleAppendEntriesRequest m
  | appendEntriesResponse m => exact silent_handleAppendEntriesResponse m
  | installSnapshotRequest m => exact says_handleInstallSnapshotRequest m
  | installSnapshotResponse m => exact silent_handleInstallSnapshotResponse m
  | kvOperationRequest m => exact silent_handleKVOperationRequest m
  | applyCommitLogsResponse m => exact silent_handleApplyCommitLogs m
  | generateSnapshotResponse m => exact silent_handleGenerateSnapshot m
  | applySnapshotResponse m => exact says_handleApplySnapshot m
  | shutdown => exact says_after (silent_assign _) fun _ => says_push .shutdown
  | _ => exact silent_pure ()

theorem says_command (i : Input) : Says i.awaits.toList (command i) := by
  cases i with
  | electionTimeout =>
    apply says_fields
    intro r
    exact says_ite silent_becomeCandidate (silent_pure ())
  | heartbeatTimeout =>
    apply says_fields
    intro r
    exact says_ite (silent_sendAppendEntries true) (silent_pure ())
  | message m => exact says_handleMessage m

/-- A step that returns answers what it took, once and under its id. -/
theorem react_answers {r : Raft} {i : Input} (h : (r.react i).thrown = false) :
    (r.react i).pushed.filterMap RaftMessage.answers = i.awaits.toList := by
  have hs := says_command i [] { raft := r, effects := [] } rfl
  rw [react_eq] at h ⊢
  have h' : isThrow ((command i).run { raft := r, effects := [] }) = false := h
  show (endScope ((command i).run { raft := r, effects := [] })).said = _
  cases hc : (command i).run { raft := r, effects := [] } with
  | ok a s =>
    rw [hc] at hs
    exact hs
  | error e s =>
    rw [hc] at h'
    cases h'

end Raft

end WWRaftKV
