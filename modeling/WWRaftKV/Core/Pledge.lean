/-
The term and the vote of a node are on file at the end of every step.

`Filed` says so for a part of a step: the last record that the part writes carries the
term and the vote it ends with, and a part that writes nothing keeps both.  A step that
throws is no exception, since no handler touches the two fields without a call of
`_Persist` right behind it.
-/
import WWRaftKV.Core.Ballot

namespace WWRaftKV

/-- What a node has promised to remember. -/
def RaftPersistData.pledge (d : RaftPersistData) : Nat × Int := (d.term, d.votedFor)

def Raft.pledge (r : Raft) : Nat × Int := (r.term, r.votedFor)

/-- The pledge on file after the records `ds`, when it was `p` before. -/
def pledgeAfter (p : Nat × Int) (ds : List RaftPersistData) : Nat × Int :=
  (ds.getLast?.map RaftPersistData.pledge).getD p

theorem pledgeAfter_append (p : Nat × Int) (ds fs : List RaftPersistData) :
    pledgeAfter p (ds ++ fs) = pledgeAfter (pledgeAfter p ds) fs := by
  unfold pledgeAfter
  rw [List.getLast?_append]
  cases fs.getLast? <;> rfl

def Filed (s s' : Scope) : Prop :=
  ∃ es, s'.effects = s.effects ++ es ∧
    s'.raft.pledge = pledgeAfter s.raft.pledge (persistedOf es)

namespace Filed

theorem refl (s : Scope) : Filed s s := ⟨[], (List.append_nil _).symm, rfl⟩

theorem trans (a b c : Scope) (h : Filed a b) (g : Filed b c) : Filed a c := by
  obtain ⟨es, hes, hp⟩ := h
  obtain ⟨fs, hfs, hq⟩ := g
  refine ⟨es ++ fs, ?_, ?_⟩
  · rw [hfs, hes, List.append_assoc]
  · rw [persistedOf_append, pledgeAfter_append, ← hp]
    exact hq

end Filed

namespace Raft

open RaftM

/-! ## Commands -/

section Commands

variable {α β : Type}

theorem filed_pure (a : α) : Frame Filed (pure a : RaftM α) := Frame.pure Filed.refl a

theorem filed_bind {c : RaftM α} {f : α → RaftM β} (hc : Frame Filed c)
    (hf : ∀ a, Frame Filed (f a)) : Frame Filed (c >>= f) :=
  Frame.bind Filed.trans hc hf

theorem filed_fields : Frame Filed fields := Frame.fields Filed.refl

theorem filed_read {f : Raft → RaftM β} (hf : ∀ r, Frame Filed (f r)) :
    Frame Filed (fields >>= f) := filed_bind filed_fields hf

theorem filed_orThrow (x : Option α) : Frame Filed (orThrow x) := Frame.orThrow Filed.refl x

theorem filed_push (m : RaftMessage) : Frame Filed (push m) := fun _ => ⟨_, rfl, rfl⟩

theorem filed_assign {f : Raft → Raft} (h : ∀ r, (f r).pledge = r.pledge) :
    Frame Filed (assign f) :=
  fun s => ⟨[], (List.append_nil _).symm, h s.raft⟩

/-- A change that is written at once may be any. -/
theorem filed_save (f : Raft → Raft) : Frame Filed (assign f >>= fun _ => persist) := by
  intro s
  rw [bind_run]
  exact ⟨[.persist (f s.raft).persistData], rfl, rfl⟩

theorem filed_save_bind (f : Raft → Raft) {c : Unit → RaftM β} (hc : Frame Filed (c ())) :
    Frame Filed (assign f >>= fun _ => persist >>= c) := by
  have h : (assign f >>= fun _ => persist >>= c) = (assign f >>= fun _ => persist) >>= c :=
    rfl
  rw [h]
  exact filed_bind (filed_save f) fun _ => hc

end Commands

/-! ## Handlers -/

theorem filed_becomeFollower (l : Int) (t : Nat) : Frame Filed (becomeFollower l t) :=
  filed_save _

theorem filed_observeTerm (l : Int) (t : Nat) : Frame Filed (observeTerm l t) :=
  filed_read fun _ => Frame.ite (filed_becomeFollower l t) (filed_pure _)

theorem filed_becomeCandidate : Frame Filed becomeCandidate := by
  refine filed_save_bind _ (filed_read fun r => Frame.forM Filed.refl Filed.trans ?_ _)
  intro peer
  exact Frame.ite (filed_pure _) (filed_push _)

theorem filed_sendAppendEntries (b : Bool) : Frame Filed (sendAppendEntries b) := by
  refine filed_read fun r => Frame.forM Filed.refl Filed.trans (fun peer => ?_) _
  refine filed_read fun r => Frame.ite (filed_pure _) (Frame.ite (filed_push _) ?_)
  exact filed_bind (filed_orThrow _) fun _ => filed_push _

theorem filed_becomeLeader : Frame Filed becomeLeader := by
  refine filed_save_bind _ (filed_bind (filed_assign fun _ => rfl) fun _ => ?_)
  exact filed_sendAppendEntries true

theorem filed_applyCommitLogs : Frame Filed applyCommitLogs := by
  refine filed_read fun r => Frame.ite (filed_pure _) ?_
  refine filed_bind (filed_assign fun _ => rfl) fun _ => ?_
  exact filed_bind (filed_orThrow _) fun _ => filed_push _

theorem filed_checkIfNeedSnapshot : Frame Filed checkIfNeedSnapshot := by
  refine filed_read fun r => Frame.ite (filed_pure _) ?_
  refine filed_bind (filed_assign fun _ => rfl) fun _ => Frame.ite ?_ ?_
  · exact filed_read fun _ => filed_bind (filed_orThrow _) fun _ => filed_push _
  · exact filed_assign fun _ => rfl

theorem filed_handleRequestVoteRequest (m : RaftRequestVoteRequestMessage) :
    Frame Filed (handleRequestVoteRequest m) := by
  refine filed_read fun r => Frame.ite (filed_push _) ?_
  refine filed_bind (filed_observeTerm _ _) fun _ => filed_read fun r => ?_
  refine Frame.ite (filed_push _) (Frame.ite (filed_push _) ?_)
  exact filed_save_bind _ (filed_push _)

theorem filed_handleRequestVoteResponse (m : RaftRequestVoteResponseMessage) :
    Frame Filed (handleRequestVoteResponse m) := by
  refine filed_read fun r => Frame.ite (filed_pure _) ?_
  refine Frame.ite (filed_becomeFollower _ _) (Frame.ite (filed_pure _) ?_)
  refine Frame.ite ?_ (filed_pure _)
  refine filed_bind (filed_assign fun _ => rfl) fun _ => filed_read fun r => ?_
  exact Frame.ite filed_becomeLeader (filed_pure _)

theorem pledge_truncateAfter (i : Int) (r : Raft) : (r.truncateAfter i).pledge = r.pledge :=
  congrArg (fun o => (o.1.1.term, o.1.1.votedFor)) (office_truncateAfter i r)

theorem pledge_truncateBefore (i : Int) (r : Raft) : (r.truncateBefore i).pledge = r.pledge :=
  congrArg (fun o => (o.1.1.term, o.1.1.votedFor)) (office_truncateBefore i r)

theorem filed_rejectEntries (i : Int) (m : RaftAppendEntriesResponseMessage) :
    Frame Filed (rejectEntries i m) := by
  refine filed_bind (filed_assign (pledge_truncateAfter i)) fun _ => ?_
  refine filed_bind (filed_push _) fun _ => filed_read fun _ => ?_
  exact filed_bind (filed_orThrow _) fun _ => filed_pure _

theorem filed_syncLogs (es : List RaftLogEntry) : Frame Filed (syncLogs es) := by
  refine Frame.ite (filed_pure _) (filed_save_bind _ ?_)
  exact filed_assign fun _ => rfl

theorem filed_followCommit (c : Int) : Frame Filed (followCommit c) := by
  refine filed_read fun r => Frame.ite ?_ (filed_pure _)
  exact filed_bind (filed_assign fun _ => rfl) fun _ => filed_applyCommitLogs

theorem filed_handleAppendEntriesRequest (m : RaftAppendEntriesRequestMessage) :
    Frame Filed (handleAppendEntriesRequest m) := by
  refine filed_read fun r => Frame.ite (filed_push _) ?_
  refine filed_bind (filed_observeTerm _ _) fun _ => filed_read fun r => ?_
  refine filed_bind (filed_orThrow _) fun _ => Frame.ite ?_ (filed_rejectEntries _ _)
  refine filed_bind (filed_syncLogs _) fun _ => filed_bind (filed_followCommit _) fun _ => ?_
  exact filed_read fun _ => filed_push _

theorem filed_commitMajority : Frame Filed commitMajority := by
  refine filed_read fun r => filed_bind (filed_orThrow _) fun t => Frame.ite ?_ (filed_pure _)
  refine filed_bind (filed_assign fun _ => rfl) fun _ => ?_
  exact filed_bind filed_applyCommitLogs fun _ => filed_checkIfNeedSnapshot

theorem filed_handleAppendEntriesResponse (m : RaftAppendEntriesResponseMessage) :
    Frame Filed (handleAppendEntriesResponse m) := by
  refine filed_read fun r => Frame.ite (filed_pure _) ?_
  refine Frame.ite (filed_becomeFollower _ _) ?_
  cases r.findPeer m.fromId with
  | none => exact filed_pure _
  | some p =>
    refine Frame.ite ?_ (Frame.ite (filed_assign fun _ => rfl) (filed_pure _))
    exact filed_bind (filed_assign fun _ => rfl) fun _ => filed_commitMajority

theorem filed_handleInstallSnapshotRequest (m : RaftInstallSnapshotRequestMessage) :
    Frame Filed (handleInstallSnapshotRequest m) := by
  refine filed_read fun r => Frame.ite (filed_push _) ?_
  refine filed_bind (filed_observeTerm _ _) fun _ => filed_read fun r => ?_
  exact Frame.ite (filed_push _) (filed_push _)

theorem filed_handleInstallSnapshotResponse (m : RaftInstallSnapshotResponseMessage) :
    Frame Filed (handleInstallSnapshotResponse m) := by
  refine filed_read fun r => Frame.ite (filed_pure _) (Frame.ite (filed_pure _) ?_)
  refine Frame.ite (filed_becomeFollower _ _) ?_
  cases r.findPeer m.fromId with
  | none => exact filed_pure _
  | some p => exact filed_assign fun _ => rfl

theorem filed_handleApplyCommitLogs (m : ApplyCommitLogsResponseMessage) :
    Frame Filed (handleApplyCommitLogs m) := by
  refine filed_bind (filed_assign fun _ => rfl) fun _ => ?_
  exact filed_bind (filed_assign fun _ => rfl) fun _ => filed_checkIfNeedSnapshot

theorem filed_handleGenerateSnapshot (m : GenerateSnapshotResponseMessage) :
    Frame Filed (handleGenerateSnapshot m) := by
  refine Frame.ite (filed_pure _) ?_
  refine filed_bind (filed_assign (pledge_truncateBefore _)) fun _ => ?_
  exact filed_save_bind _ (filed_assign fun _ => rfl)

theorem filed_handleApplySnapshot (m : ApplySnapshotResponseMessage) :
    Frame Filed (handleApplySnapshot m) := by
  refine Frame.ite (filed_push _) ?_
  refine filed_bind (filed_assign (pledge_truncateBefore _)) fun _ => filed_read fun r => ?_
  exact filed_bind (filed_assign fun _ => rfl) fun _ => filed_push _

theorem filed_handleKVOperationRequest (m : KVOperationRequestMessage) :
    Frame Filed (handleKVOperationRequest m) := by
  refine filed_read fun r => Frame.ite (filed_push _) ?_
  cases commandText m.opType m.key m.value with
  | none => exact filed_push _
  | some command =>
    refine filed_save_bind _ (filed_bind (filed_assign fun _ => rfl) fun _ => ?_)
    exact filed_sendAppendEntries false

theorem filed_handleMessage (m : RaftMessage) : Frame Filed (handleMessage m) := by
  cases m with
  | requestVoteRequest m => exact filed_handleRequestVoteRequest m
  | requestVoteResponse m => exact filed_handleRequestVoteResponse m
  | appendEntriesRequest m => exact filed_handleAppendEntriesRequest m
  | appendEntriesResponse m => exact filed_handleAppendEntriesResponse m
  | installSnapshotRequest m => exact filed_handleInstallSnapshotRequest m
  | installSnapshotResponse m => exact filed_handleInstallSnapshotResponse m
  | kvOperationRequest m => exact filed_handleKVOperationRequest m
  | applyCommitLogsResponse m => exact filed_handleApplyCommitLogs m
  | generateSnapshotResponse m => exact filed_handleGenerateSnapshot m
  | applySnapshotResponse m => exact filed_handleApplySnapshot m
  | shutdown => exact filed_bind (filed_assign fun _ => rfl) fun _ => filed_push _
  | _ => exact filed_pure _

theorem filed_command (i : Input) : Frame Filed (command i) := by
  cases i with
  | electionTimeout =>
    exact filed_read fun _ => Frame.ite filed_becomeCandidate (filed_pure _)
  | heartbeatTimeout =>
    exact filed_read fun _ => Frame.ite (filed_sendAppendEntries true) (filed_pure _)
  | message m => exact filed_handleMessage m

/-- The records of one step end with the term and the vote of the node. -/
theorem react_pledge (r : Raft) (i : Input) :
    (r.react i).raft.pledge = pledgeAfter r.pledge (r.react i).persisted := by
  obtain ⟨es, hes, hp⟩ := filed_command i { raft := r, effects := [] }
  rw [List.nil_append] at hes
  rw [react_eq, Reaction.persisted, hes]
  exact hp

end Raft

end WWRaftKV
