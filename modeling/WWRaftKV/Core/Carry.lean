/-
Where the entries of a step come from.

A handler makes no entry up.  What stands in the vector after a step, and what the step
sends to the peers or hands to the clerk, has stood in the vector before, or has come with
the input, or is the padding of a `resize`.
-/
import WWRaftKV.Core.Emit

namespace WWRaftKV

open RaftM

/-- The entries in a message. -/
def RaftMessage.carried : RaftMessage → List RaftLogEntry
  | .appendEntriesRequest m => m.entries
  | .applyCommitLogsRequest m => m.entries
  | _ => []

namespace Raft

/-- The entries that an input brings to node `r`. -/
def brought (r : Raft) : Input → List RaftLogEntry
  | .message (.appendEntriesRequest m) => m.entries
  | .message (.kvOperationRequest m) => (r.writeOf m).toList
  | _ => []

section Walk

variable {W : RaftLogEntry → Prop} {α β : Type}

/-- Every entry of the vector satisfies `W`. -/
def AllLogs (W : RaftLogEntry → Prop) (r : Raft) : Prop := ∀ e ∈ r.logs, W e

/-- Every entry in the message satisfies `W`. -/
def AllCarried (W : RaftLogEntry → Prop) (m : RaftMessage) : Prop := ∀ e ∈ m.carried, W e

/-- The command makes no entry up. -/
def Carries (W : RaftLogEntry → Prop) (c : RaftM α) : Prop :=
  Emits (AllLogs W) (AllCarried W) c

theorem carries_pure (a : α) : Carries W (pure a : RaftM α) := emits_pure a

theorem carries_bind {c : RaftM α} {f : α → RaftM β} (hc : Carries W c)
    (hf : ∀ a, Carries W (f a)) : Carries W (c >>= f) := emits_bind hc hf

theorem carries_ite {p : Prop} [Decidable p] {c d : RaftM α} (hc : Carries W c)
    (hd : Carries W d) : Carries W (if p then c else d) :=
  emits_ite (fun _ => hc) fun _ => hd

theorem carries_fields {f : Raft → RaftM α} (h : ∀ r, AllLogs W r → Carries W (f r)) :
    Carries W (fields >>= f) := emits_fields h

/-- An assignment to other fields than the vector. -/
theorem carries_assign {g : Raft → Raft} (h : ∀ r, (g r).logs = r.logs) :
    Carries W (assign g) := by
  apply emits_assign
  intro r hr e he
  rw [h] at he
  exact hr e he

theorem carries_set {g : Raft → Raft} {f : Unit → RaftM β} (h : ∀ r, (g r).logs = r.logs)
    (hf : Carries W (f ())) : Carries W (assign g >>= f) :=
  carries_bind (carries_assign h) fun _ => hf

theorem carries_persist : Carries W persist := emits_persist

theorem carries_orThrow (x : Option α) : Carries W (orThrow x) := emits_orThrow x

theorem carries_push {m : RaftMessage} (h : AllCarried W m) : Carries W (push m) := emits_push h

/-- A message without entries. -/
theorem carries_send {m : RaftMessage} (h : m.carried = []) : Carries W (push m) := by
  apply carries_push
  intro e he
  rw [h] at he
  cases he

/-- The end of a command, also of one that throws. -/
theorem Carries.run {c : RaftM Unit} {r : Raft} (hc : Carries W c) (hr : AllLogs W r) :
    AllLogs W (endScope (c.run { raft := r, effects := [] })).raft ∧
      ∀ m ∈ pushedOf (endScope (c.run { raft := r, effects := [] })).effects, AllCarried W m := by
  apply endScope_of_triple hc
  exact ⟨hr, nofun⟩

/-! ### The vector -/

theorem AllLogs.appendLogs {r : Raft} {es : List RaftLogEntry} (h : AllLogs W r)
    (hes : ∀ e ∈ es, W e) : AllLogs W (r.appendLogs es) := by
  intro e he
  rcases List.mem_append.mp he with he | he
  · exact h e he
  · exact hes e he

theorem AllLogs.truncateAfter {r : Raft} (h : AllLogs W r) (hd : W default) (i : Int) :
    AllLogs W (r.truncateAfter i) := by
  intro e he
  unfold Raft.truncateAfter at he
  split at he
  · exact h e he
  · rcases List.mem_append.mp he with he | he
    · exact h e (List.mem_of_mem_take he)
    · rw [List.eq_of_mem_replicate he]
      exact hd

theorem AllLogs.truncateBefore {r : Raft} (h : AllLogs W r) (i : Int) :
    AllLogs W (r.truncateBefore i) := by
  intro e he
  unfold Raft.truncateBefore at he
  split at he
  · exact h e he
  · exact h e (List.mem_of_mem_drop he)

theorem AllLogs.getLogAt {r : Raft} (h : AllLogs W r) {i : Int} {e : RaftLogEntry}
    (he : r.getLogAt i = some e) : W e := by
  unfold Raft.getLogAt logsAt at he
  split at he
  · cases he
  split at he
  · cases he
  · exact h e (List.mem_of_getElem? he)

theorem AllLogs.getLogFrom {r : Raft} (h : AllLogs W r) (i : Int) :
    ∀ e ∈ r.getLogFrom i, W e := by
  intro e he
  unfold Raft.getLogFrom at he
  split at he
  · cases he
  · exact h e (List.mem_of_mem_drop he)

theorem AllLogs.mapM {r : Raft} (h : AllLogs W r) {is : List Int} {es : List RaftLogEntry}
    (hes : is.mapM r.getLogAt = some es) : ∀ e ∈ es, W e := by
  induction is generalizing es with
  | nil =>
    obtain rfl := Option.some.inj hes
    exact nofun
  | cons i is ih =>
    rw [List.mapM_cons] at hes
    cases hi : r.getLogAt i with
    | none =>
      rw [hi] at hes
      cases hes
    | some e =>
      cases his : is.mapM r.getLogAt with
      | none =>
        rw [hi, his] at hes
        cases hes
      | some fs =>
        rw [hi, his] at hes
        obtain rfl := Option.some.inj hes
        intro x hx
        rcases List.mem_cons.mp hx with rfl | hx
        · exact h.getLogAt hi
        · exact ih his x hx

/-! ### Handlers -/

theorem carries_becomeFollower (l : Int) (t : Nat) : Carries W (becomeFollower l t) :=
  carries_set (fun _ => rfl) carries_persist

theorem carries_observeTerm (l : Int) (t : Nat) : Carries W (observeTerm l t) :=
  carries_fields fun _ _ => carries_ite (carries_becomeFollower l t) (carries_pure ())

theorem carries_becomeCandidate : Carries W becomeCandidate := by
  refine carries_set (fun _ => rfl) ?_
  apply carries_bind carries_persist
  intro _
  apply carries_fields
  intro r _
  apply emits_forM
  intro p _
  exact carries_ite (carries_pure ()) (carries_send rfl)

theorem carries_sendAppendEntries (b : Bool) : Carries W (sendAppendEntries b) := by
  apply carries_fields
  intro r _
  apply emits_forM
  intro p _
  apply carries_fields
  intro x hx
  apply carries_ite (carries_pure ())
  apply carries_ite (carries_send rfl)
  apply carries_bind (carries_orThrow _)
  intro t
  apply carries_push
  intro e he
  cases b with
  | true => cases he
  | false => exact hx.getLogFrom _ e he

theorem carries_becomeLeader : Carries W becomeLeader := by
  refine carries_set (fun _ => rfl) ?_
  apply carries_bind carries_persist
  intro _
  refine carries_set (fun _ => rfl) ?_
  exact carries_sendAppendEntries true

theorem carries_applyCommitLogs : Carries W applyCommitLogs := by
  apply carries_fields
  intro r hr
  apply carries_ite (carries_pure ())
  refine carries_set (fun _ => rfl) ?_
  apply emits_lookup
  intro es hes
  exact carries_push (hr.mapM hes)

theorem carries_checkIfNeedSnapshot : Carries W checkIfNeedSnapshot := by
  apply carries_fields
  intro r _
  apply carries_ite (carries_pure ())
  refine carries_set (fun _ => rfl) ?_
  apply carries_ite
  · apply carries_fields
    intro x _
    exact carries_bind (carries_orThrow _) fun _ => carries_send rfl
  · exact carries_assign fun _ => rfl

theorem carries_handleRequestVoteRequest (m : RaftRequestVoteRequestMessage) :
    Carries W (handleRequestVoteRequest m) := by
  apply carries_fields
  intro r _
  apply carries_ite (carries_send rfl)
  apply carries_bind (carries_observeTerm _ _)
  intro _
  apply carries_fields
  intro x _
  apply carries_ite (carries_send rfl)
  apply carries_ite (carries_send rfl)
  refine carries_set (fun _ => rfl) ?_
  exact carries_bind carries_persist fun _ => carries_send rfl

theorem carries_handleRequestVoteResponse (m : RaftRequestVoteResponseMessage) :
    Carries W (handleRequestVoteResponse m) := by
  apply carries_fields
  intro r _
  apply carries_ite (carries_pure ())
  apply carries_ite (carries_becomeFollower _ _)
  apply carries_ite (carries_pure ())
  apply carries_ite _ (carries_pure ())
  refine carries_set (fun _ => rfl) ?_
  exact carries_fields fun _ _ => carries_ite carries_becomeLeader (carries_pure ())

theorem carries_rejectEntries (hd : W default) (i : Int)
    (m : RaftAppendEntriesResponseMessage) : Carries W (rejectEntries i m) := by
  apply carries_bind
  · apply emits_assign
    intro r hr
    exact hr.truncateAfter hd i
  intro _
  apply carries_bind (carries_send rfl)
  intro _
  apply carries_fields
  intro r _
  exact carries_bind (carries_orThrow _) fun _ => carries_pure ()

theorem carries_append {es : List RaftLogEntry} (hes : ∀ e ∈ es, W e) :
    Carries W (assign (appendLogs es)) := by
  apply emits_assign
  intro r hr
  exact hr.appendLogs hes

theorem carries_syncLogs {es : List RaftLogEntry} (hes : ∀ e ∈ es, W e) :
    Carries W (syncLogs es) := by
  apply carries_ite (carries_pure ())
  apply carries_bind (carries_append hes)
  intro _
  exact carries_bind carries_persist fun _ => carries_assign fun _ => rfl

theorem carries_followCommit (c : Int) : Carries W (followCommit c) := by
  apply carries_fields
  intro r _
  apply carries_ite _ (carries_pure ())
  exact carries_set (fun _ => rfl) carries_applyCommitLogs

theorem carries_handleAppendEntriesRequest (hd : W default)
    {m : RaftAppendEntriesRequestMessage} (hm : ∀ e ∈ m.entries, W e) :
    Carries W (handleAppendEntriesRequest m) := by
  apply carries_fields
  intro r _
  apply carries_ite (carries_send rfl)
  apply carries_bind (carries_observeTerm _ _)
  intro _
  apply carries_fields
  intro x _
  apply carries_bind (carries_orThrow _)
  intro b
  apply carries_ite _ (carries_rejectEntries hd _ _)
  apply carries_bind (carries_syncLogs hm)
  intro _
  apply carries_bind (carries_followCommit _)
  intro _
  exact carries_fields fun _ _ => carries_send rfl

theorem carries_handleAppendEntriesResponse (m : RaftAppendEntriesResponseMessage) :
    Carries W (handleAppendEntriesResponse m) := by
  apply carries_fields
  intro r _
  apply carries_ite (carries_pure ())
  apply carries_ite (carries_becomeFollower _ _)
  cases r.findPeer m.fromId with
  | none => exact carries_pure ()
  | some p =>
    apply carries_ite
    · refine carries_set (fun _ => rfl) ?_
      apply carries_fields
      intro x _
      apply carries_bind (carries_orThrow _)
      intro t
      apply carries_ite _ (carries_pure ())
      refine carries_set (fun _ => rfl) ?_
      exact carries_bind carries_applyCommitLogs fun _ => carries_checkIfNeedSnapshot
    · exact carries_ite (carries_assign fun _ => rfl) (carries_pure ())

theorem carries_handleInstallSnapshotRequest (m : RaftInstallSnapshotRequestMessage) :
    Carries W (handleInstallSnapshotRequest m) := by
  apply carries_fields
  intro r _
  apply carries_ite (carries_send rfl)
  apply carries_bind (carries_observeTerm _ _)
  intro _
  exact carries_fields fun _ _ => carries_ite (carries_send rfl) (carries_send rfl)

theorem carries_handleInstallSnapshotResponse (m : RaftInstallSnapshotResponseMessage) :
    Carries W (handleInstallSnapshotResponse m) := by
  apply carries_fields
  intro r _
  apply carries_ite (carries_pure ())
  apply carries_ite (carries_pure ())
  apply carries_ite (carries_becomeFollower _ _)
  cases r.findPeer m.fromId with
  | none => exact carries_pure ()
  | some p => exact carries_assign fun _ => rfl

theorem carries_truncateBefore (i : Int) : Carries W (assign (truncateBefore i)) := by
  apply emits_assign
  intro r hr
  exact hr.truncateBefore i

theorem carries_handleGenerateSnapshot (m : GenerateSnapshotResponseMessage) :
    Carries W (handleGenerateSnapshot m) := by
  apply carries_ite (carries_pure ())
  apply carries_bind (carries_truncateBefore _)
  intro _
  refine carries_set (fun _ => rfl) ?_
  exact carries_bind carries_persist fun _ => carries_assign fun _ => rfl

theorem carries_handleApplySnapshot (m : ApplySnapshotResponseMessage) :
    Carries W (handleApplySnapshot m) := by
  apply carries_ite (carries_send rfl)
  apply carries_bind (carries_truncateBefore _)
  intro _
  apply carries_fields
  intro r _
  exact carries_set (fun _ => rfl) (carries_send rfl)

/-- The write that the handler adds is the one that the operation becomes in the state
before the step. -/
theorem carries_handleKVOperationRequest {r : Raft} {m : KVOperationRequestMessage}
    (hm : ∀ e ∈ (r.writeOf m).toList, W e) (hr : AllLogs W r) :
    AllLogs W (endScope ((handleKVOperationRequest m).run { raft := r, effects := [] })).raft ∧
      ∀ x ∈ pushedOf (endScope ((handleKVOperationRequest m).run
        { raft := r, effects := [] })).effects, AllCarried W x := by
  rw [handleKVOperationRequest, bind_run, fields_run]
  simp only
  rw [ite_run]
  by_cases hrole : r.role ≠ .leader
  · rw [if_pos hrole]
    exact Carries.run (carries_send rfl) hr
  rw [if_neg hrole]
  cases htext : commandText m.opType m.key m.value with
  | none => exact Carries.run (carries_send rfl) hr
  | some text =>
    rw [writeOf, if_pos (not_not.mp hrole), htext] at hm
    have hwrite : Carries W (do
        assign (appendLogs [{
          uuid := m.uuid, sequenceId := m.seq, term := r.term, command := text }])
        persist
        assign advanceLast
        sendAppendEntries false) := by
      apply carries_bind
      · apply carries_append
        intro e he
        rw [List.mem_singleton.mp he]
        exact hm _ (List.mem_singleton.mpr rfl)
      intro _
      apply carries_bind carries_persist
      intro _
      refine carries_set (fun _ => rfl) ?_
      exact carries_sendAppendEntries false
    exact hwrite.run hr

end Walk

variable {W : RaftLogEntry → Prop} {r : Raft} {i : Input}

/-- A step, also one that throws, makes no entry up. -/
theorem react_carries (hd : W default) (hr : AllLogs W r) (hi : ∀ e ∈ r.brought i, W e) :
    AllLogs W (r.react i).raft ∧ ∀ m ∈ (r.react i).pushed, AllCarried W m := by
  rw [react_eq]
  cases i with
  | electionTimeout =>
    exact (carries_fields fun _ _ =>
      carries_ite carries_becomeCandidate (carries_pure ())).run hr
  | heartbeatTimeout =>
    exact (carries_fields fun _ _ =>
      carries_ite (carries_sendAppendEntries true) (carries_pure ())).run hr
  | message m =>
    cases m with
    | requestVoteRequest m => exact (carries_handleRequestVoteRequest m).run hr
    | requestVoteResponse m => exact (carries_handleRequestVoteResponse m).run hr
    | appendEntriesRequest m => exact (carries_handleAppendEntriesRequest hd hi).run hr
    | appendEntriesResponse m => exact (carries_handleAppendEntriesResponse m).run hr
    | installSnapshotRequest m => exact (carries_handleInstallSnapshotRequest m).run hr
    | installSnapshotResponse m => exact (carries_handleInstallSnapshotResponse m).run hr
    | kvOperationRequest m => exact carries_handleKVOperationRequest hi hr
    | applyCommitLogsResponse m =>
      refine Carries.run (carries_set (fun _ => rfl) ?_) hr
      exact carries_set (fun _ => rfl) carries_checkIfNeedSnapshot
    | generateSnapshotResponse m => exact (carries_handleGenerateSnapshot m).run hr
    | applySnapshotResponse m => exact (carries_handleApplySnapshot m).run hr
    | shutdown =>
      exact Carries.run (carries_set (fun _ => rfl) (carries_send rfl)) hr
    | _ => exact Carries.run (carries_pure ()) hr

end Raft

end WWRaftKV
