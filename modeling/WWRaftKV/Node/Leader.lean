/-
The leader that a node knows.

`_Leader_id` is written in three places: a step down writes what it is given, an election
writes the node's own id, and nothing else touches it.  A request of a leader is handed to
the step down only when its term is larger, so a node that has come to the term on its own
keeps its role and does not learn who leads.
-/
import WWRaftKV.General.Run
import WWRaftKV.Core.Emit
import WWRaftKV.Core.Peers
import WWRaftKV.Node.View

namespace WWRaftKV

open RaftM

/-! ## Requests of a leader -/

/-- The sender and the term of a request that only a leader makes. -/
def RaftMessage.fromLeader : RaftMessage → Option (Int × Nat)
  | .appendEntriesRequest m => some (m.fromId, m.term)
  | .installSnapshotRequest m => some (m.fromId, m.term)
  | _ => none

def Input.fromLeader : Input → Option (Int × Nat)
  | .message m => m.fromLeader
  | _ => none

namespace Raft

/-- The node is a follower of `x.1` in term `x.2`. -/
structure IsFollowerOf (r : Raft) (x : Int × Nat) : Prop where
  role : r.role = .follower
  term : r.term = x.2
  leader : r.leaderId = x.1

/-- The request is not from an older term, and the node does not lead in its term itself. -/
def Hears (r : Raft) (x : Int × Nat) : Prop :=
  r.term ≤ x.2 ∧ ¬ (r.role = .leader ∧ r.term = x.2)

/-- A request of the current leader makes the node its follower. -/
def FollowsLeader (r : Raft) (i : Input) : Prop :=
  ∀ x ∈ i.fromLeader, r.Hears x → (r.react i).raft.IsFollowerOf x

/-- A request of the current leader has a larger term, or finds a follower of the sender. -/
def NewOrFollowed (r : Raft) (i : Input) : Prop :=
  ∀ x ∈ i.fromLeader, r.Hears x →
    r.term < x.2 ∨ r.role = .follower ∧ r.leaderId = x.1

section Office

variable {r s : Raft} {c : RaftM Unit} {l : Int} {t : Nat}

theorem role_of_office (h : s.office = r.office) : s.role = r.role :=
  congrArg (·.1.1.role) h

theorem term_of_office (h : s.office = r.office) : s.term = r.term :=
  congrArg (·.1.1.term) h

theorem leaderId_of_office (h : s.office = r.office) : s.leaderId = r.leaderId :=
  congrArg (·.2) h

/-- A term test followed by commands that keep the office. -/
theorem observe_run_office (h : Frame (KeepsView office) c) :
    (endScope ((observeTerm l t >>= fun _ => c).run { raft := r, effects := [] })).raft.office =
      (r.observe l t).office := by
  rw [bind_run, observeTerm_run]
  exact (h _).1

theorem react_appendEntries_office (m : RaftAppendEntriesRequestMessage) (h : r.term ≤ m.term) :
    (r.react (.message (.appendEntriesRequest m))).raft.office =
      (r.observe m.fromId m.term).office := by
  rw [react_eq]
  show (endScope ((handleAppendEntriesRequest m).run _)).raft.office = _
  unfold handleAppendEntriesRequest
  rw [bind_run, fields_run]
  simp only
  rw [ite_run, if_neg (Nat.not_lt.mpr h)]
  exact observe_run_office (keep_replicate m)

theorem react_installSnapshot_office (m : RaftInstallSnapshotRequestMessage)
    (h : r.term ≤ m.term) :
    (r.react (.message (.installSnapshotRequest m))).raft.office =
      (r.observe m.fromId m.term).office := by
  rw [react_eq]
  show (endScope ((handleInstallSnapshotRequest m).run _)).raft.office = _
  unfold handleInstallSnapshotRequest
  rw [bind_run, fields_run]
  simp only
  rw [ite_run, if_neg (Nat.not_lt.mpr h)]
  apply observe_run_office
  apply keep_bind keep_fields
  intro r
  exact Frame.ite (keep_push rfl) (keep_push rfl)

/-- A request of a leader changes the office as its term test does. -/
theorem react_fromLeader_office {i : Input} {x : Int × Nat} (hi : i.fromLeader = some x)
    (h : r.term ≤ x.2) : (r.react i).raft.office = (r.observe x.1 x.2).office := by
  cases i with
  | message m =>
    cases m with
    | appendEntriesRequest m =>
      obtain rfl := Option.some.inj hi
      exact react_appendEntries_office m h
    | installSnapshotRequest m =>
      obtain rfl := Option.some.inj hi
      exact react_installSnapshot_office m h
    | _ => cases hi
  | _ => cases hi

theorem isFollowerOf_of_office {x : Int × Nat} (h : s.office = r.office) :
    s.IsFollowerOf x ↔ r.IsFollowerOf x := by
  have hr := role_of_office h
  have ht := term_of_office h
  have hl := leaderId_of_office h
  constructor
  · intro hf
    exact ⟨hr.symm.trans hf.role, ht.symm.trans hf.term, hl.symm.trans hf.leader⟩
  · intro hf
    exact ⟨hr.trans hf.role, ht.trans hf.term, hl.trans hf.leader⟩

theorem isFollowerOf_observe {x : Int × Nat} (h : r.term ≤ x.2) :
    (r.observe x.1 x.2).IsFollowerOf x ↔
      r.term < x.2 ∨ r.role = .follower ∧ r.leaderId = x.1 := by
  by_cases hlt : r.term < x.2
  · rw [observe_gt hlt]
    exact ⟨fun _ => .inl hlt, fun _ => ⟨rfl, rfl, rfl⟩⟩
  · rw [observe_le hlt]
    constructor
    · intro hf
      exact .inr ⟨hf.role, hf.leader⟩
    · intro hf
      rcases hf with hf | ⟨hrole, hleader⟩
      · exact absurd hf hlt
      · exact ⟨hrole, by omega, hleader⟩

/-- One step: the node follows the leader exactly when the term is new to it or it follows
this leader already. -/
theorem followsLeader_iff (r : Raft) (i : Input) : r.FollowsLeader i ↔ r.NewOrFollowed i := by
  apply forall_congr'
  intro x
  apply imp_congr_right
  intro hi
  apply imp_congr_right
  intro hh
  rw [isFollowerOf_of_office (react_fromLeader_office hi hh.1)]
  exact isFollowerOf_observe hh.1

end Office

/-! ## Runs of a core -/

/-- The state for the next step, when the step returns. -/
def advance (r : Raft) (i : Input) : Option Raft :=
  if (r.react i).thrown then none else some (r.react i).raft

end Raft

/-- Over any run of a node, started with or without a file: every request of a current leader
makes the node its follower if and only if each of them comes with a term that is new to the
node or finds the node a follower of its sender. -/
theorem followsLeader_along_iff (id : Int) (ids : List Int) (file : Option RaftPersistData)
    (is : List Input) :
    Transition.Along Raft.advance Raft.FollowsLeader (restart id ids file) is ↔
      Transition.Along Raft.advance Raft.NewOrFollowed (restart id ids file) is :=
  Transition.Along.congr Raft.followsLeader_iff

/-! ## What the leader id can be -/

namespace Raft

/-- The node that was `a` is still `a`, knows the leader it knew or one with `S`, and has put
its own id into the requests that only a leader makes. -/
def Names (a : Int) (S : Int → Prop) (s s' : Scope) : Prop :=
  s.raft.id = a → s'.raft.id = a ∧
    (s'.raft.leaderId = s.raft.leaderId ∨ S s'.raft.leaderId) ∧
      ∃ es, s'.effects = s.effects ++ es ∧ ∀ m ∈ pushedOf es, ∀ x ∈ m.fromLeader, x.1 = a

section Names

variable {a : Int} {S : Int → Prop} {α β : Type}

theorem Names.refl (s : Scope) : Names a S s s := by
  intro h
  refine ⟨h, .inl rfl, [], (List.append_nil _).symm, ?_⟩
  intro m hm
  cases hm

theorem Names.trans (s t u : Scope) (h : Names a S s t) (g : Names a S t u) : Names a S s u := by
  intro hs
  obtain ⟨ht, hl, es, hes, he⟩ := h hs
  obtain ⟨hu, gl, fs, hfs, hf⟩ := g ht
  refine ⟨hu, ?_, es ++ fs, ?_, ?_⟩
  · rcases gl with gl | gl
    · rw [gl]
      exact hl
    · exact .inr gl
  · rw [hfs, hes, List.append_assoc]
  · intro m hm
    rw [pushedOf_append] at hm
    rcases List.mem_append.mp hm with hm | hm
    · exact he m hm
    · exact hf m hm

theorem names_pure (x : α) : Frame (Names a S) (pure x : RaftM α) := Frame.pure Names.refl x

theorem names_bind {c : RaftM α} {f : α → RaftM β} (hc : Frame (Names a S) c)
    (hf : ∀ x, Frame (Names a S) (f x)) : Frame (Names a S) (c >>= f) :=
  Frame.bind Names.trans hc hf

theorem names_fields {f : Raft → RaftM α} (h : ∀ r, r.id = a → Frame (Names a S) (f r)) :
    Frame (Names a S) (fields >>= f) := fun s hs => h s.raft hs s hs

theorem names_orThrow (x : Option α) : Frame (Names a S) (orThrow x) :=
  Frame.orThrow Names.refl x

theorem names_assign {f : Raft → Raft} (hid : ∀ r, (f r).id = r.id)
    (hl : ∀ r, r.id = a → (f r).leaderId = r.leaderId ∨ S (f r).leaderId) :
    Frame (Names a S) (assign f) := by
  intro s hs
  refine ⟨(hid s.raft).trans hs, hl s.raft hs, [], (List.append_nil _).symm, ?_⟩
  intro m hm
  cases hm

/-- An assignment that touches neither the id nor the leader. -/
theorem names_set {f : Raft → Raft} (h : ∀ r, (f r).id = r.id ∧ (f r).leaderId = r.leaderId) :
    Frame (Names a S) (assign f) :=
  names_assign (fun r => (h r).1) fun r _ => .inl (h r).2

theorem names_persist : Frame (Names a S) persist := by
  intro s hs
  refine ⟨hs, .inl rfl, [_], rfl, ?_⟩
  intro m hm
  cases hm

theorem names_send {m : RaftMessage} (h : ∀ x ∈ m.fromLeader, x.1 = a) :
    Frame (Names a S) (push m) := by
  intro s hs
  refine ⟨hs, .inl rfl, [.push m], rfl, ?_⟩
  intro q hq
  rw [List.mem_singleton.mp hq]
  exact h

/-- A message that is no request of a leader. -/
theorem names_push {m : RaftMessage} (h : m.fromLeader = none) : Frame (Names a S) (push m) := by
  apply names_send
  intro x hx
  rw [h] at hx
  cases hx

/-! ### The parts of the handlers -/

theorem names_becomeFollower {l : Int} (t : Nat) (hl : S l) :
    Frame (Names a S) (becomeFollower l t) :=
  names_bind (names_assign (fun _ => rfl) fun _ _ => .inr hl) fun _ => names_persist

theorem names_observeTerm {l : Int} (t : Nat) (hl : S l) : Frame (Names a S) (observeTerm l t) :=
  names_fields fun _ _ => Frame.ite (names_becomeFollower t hl) (names_pure _)

theorem names_becomeCandidate : Frame (Names a S) becomeCandidate := by
  refine names_bind (names_set fun _ => ⟨rfl, rfl⟩) fun _ => ?_
  apply names_bind names_persist
  intro _
  apply names_fields
  intro r _
  apply Frame.forM Names.refl Names.trans
  intro peer
  exact Frame.ite (names_pure _) (names_push rfl)

/-- Every request to a peer is signed with the id of the node. -/
theorem names_sendAppendEntriesTo (isHeartbeat : Bool) (peer : RaftPeer) :
    Frame (Names a S) (sendAppendEntriesTo isHeartbeat peer) := by
  apply names_fields
  intro r hr
  apply Frame.ite (names_pure _)
  apply Frame.ite
  · apply names_send
    intro x hx
    obtain rfl := Option.some.inj hx
    exact hr
  · apply names_bind (names_orThrow _)
    intro t
    apply names_send
    intro x hx
    obtain rfl := Option.some.inj hx
    exact hr

theorem names_sendAppendEntries (isHeartbeat : Bool) :
    Frame (Names a S) (sendAppendEntries isHeartbeat) :=
  names_fields fun _ _ => Frame.forM Names.refl Names.trans (names_sendAppendEntriesTo _) _

theorem names_becomeLeader (ha : S a) : Frame (Names a S) becomeLeader := by
  refine names_bind (names_assign (fun _ => rfl) ?_) fun _ => ?_
  · intro r hr
    rw [toLeader_leaderId, hr]
    exact .inr ha
  · apply names_bind names_persist
    intro _
    exact names_bind (names_set fun _ => ⟨rfl, rfl⟩) fun _ => names_sendAppendEntries true

theorem names_applyCommitLogs : Frame (Names a S) applyCommitLogs := by
  apply names_fields
  intro r _
  apply Frame.ite (names_pure _)
  refine names_bind (names_set fun _ => ⟨rfl, rfl⟩) fun _ => ?_
  exact names_bind (names_orThrow _) fun _ => names_push rfl

theorem names_checkIfNeedSnapshot : Frame (Names a S) checkIfNeedSnapshot := by
  apply names_fields
  intro r _
  apply Frame.ite (names_pure _)
  refine names_bind (names_set fun _ => ⟨rfl, rfl⟩) fun _ => ?_
  apply Frame.ite
  · apply names_fields
    intro r _
    exact names_bind (names_orThrow _) fun _ => names_push rfl
  · exact names_set fun _ => ⟨rfl, rfl⟩

theorem names_rejectEntries (j : Int) (m : RaftAppendEntriesResponseMessage) :
    Frame (Names a S) (rejectEntries j m) := by
  refine names_bind (names_set fun r => ?_) fun _ => ?_
  · rw [truncateAfter_eq]
    exact ⟨rfl, rfl⟩
  · apply names_bind (names_push rfl)
    intro _
    apply names_fields
    intro r _
    exact names_bind (names_orThrow _) fun _ => names_pure _

theorem names_syncLogs (entries : List RaftLogEntry) : Frame (Names a S) (syncLogs entries) := by
  apply Frame.ite (names_pure _)
  refine names_bind (names_set fun _ => ⟨rfl, rfl⟩) fun _ => ?_
  apply names_bind names_persist
  intro _
  exact names_set fun _ => ⟨rfl, rfl⟩

theorem names_followCommit (j : Int) : Frame (Names a S) (followCommit j) := by
  apply names_fields
  intro r _
  refine Frame.ite ?_ (names_pure _)
  exact names_bind (names_set fun _ => ⟨rfl, rfl⟩) fun _ => names_applyCommitLogs

theorem names_commitMajority : Frame (Names a S) commitMajority := by
  apply names_fields
  intro r _
  apply names_bind (names_orThrow _)
  intro t
  refine Frame.ite ?_ (names_pure _)
  refine names_bind (names_set fun _ => ⟨rfl, rfl⟩) fun _ => ?_
  exact names_bind names_applyCommitLogs fun _ => names_checkIfNeedSnapshot

/-! ### The handlers -/

theorem names_handleRequestVoteRequest (m : RaftRequestVoteRequestMessage) (hn : S (-1)) :
    Frame (Names a S) (handleRequestVoteRequest m) := by
  apply names_fields
  intro r _
  apply Frame.ite (names_push rfl)
  apply names_bind (names_observeTerm _ hn)
  intro _
  apply names_fields
  intro r _
  apply Frame.ite (names_push rfl)
  apply Frame.ite (names_push rfl)
  refine names_bind (names_set fun _ => ⟨rfl, rfl⟩) fun _ => ?_
  exact names_bind names_persist fun _ => names_push rfl

theorem names_handleRequestVoteResponse (m : RaftRequestVoteResponseMessage) (hn : S (-1))
    (ha : S a) : Frame (Names a S) (handleRequestVoteResponse m) := by
  apply names_fields
  intro r _
  apply Frame.ite (names_pure _)
  apply Frame.ite (names_becomeFollower _ hn)
  apply Frame.ite (names_pure _)
  refine Frame.ite ?_ (names_pure _)
  refine names_bind (names_set fun _ => ⟨rfl, rfl⟩) fun _ => ?_
  exact names_fields fun r _ => Frame.ite (names_becomeLeader ha) (names_pure _)

theorem names_handleAppendEntriesRequest (m : RaftAppendEntriesRequestMessage)
    (hm : S m.fromId) : Frame (Names a S) (handleAppendEntriesRequest m) := by
  apply names_fields
  intro r _
  apply Frame.ite (names_push rfl)
  apply names_bind (names_observeTerm _ hm)
  intro _
  apply names_fields
  intro r _
  apply names_bind (names_orThrow _)
  intro matched
  refine Frame.ite ?_ (names_rejectEntries _ _)
  apply names_bind (names_syncLogs _)
  intro _
  apply names_bind (names_followCommit _)
  intro _
  exact names_fields fun r _ => names_push rfl

theorem names_handleAppendEntriesResponse (m : RaftAppendEntriesResponseMessage)
    (hn : S (-1)) : Frame (Names a S) (handleAppendEntriesResponse m) := by
  apply names_fields
  intro r _
  apply Frame.ite (names_pure _)
  apply Frame.ite (names_becomeFollower _ hn)
  cases r.findPeer m.fromId with
  | none => exact names_pure _
  | some p =>
    apply Frame.ite
    · exact names_bind (names_set fun _ => ⟨rfl, rfl⟩) fun _ => names_commitMajority
    · refine Frame.ite ?_ (names_pure _)
      exact names_set fun _ => ⟨rfl, rfl⟩

theorem names_handleInstallSnapshotRequest (m : RaftInstallSnapshotRequestMessage)
    (hm : S m.fromId) : Frame (Names a S) (handleInstallSnapshotRequest m) := by
  apply names_fields
  intro r _
  apply Frame.ite (names_push rfl)
  apply names_bind (names_observeTerm _ hm)
  intro _
  exact names_fields fun r _ => Frame.ite (names_push rfl) (names_push rfl)

theorem names_handleInstallSnapshotResponse (m : RaftInstallSnapshotResponseMessage)
    (hn : S (-1)) : Frame (Names a S) (handleInstallSnapshotResponse m) := by
  apply names_fields
  intro r _
  apply Frame.ite (names_pure _)
  apply Frame.ite (names_pure _)
  apply Frame.ite (names_becomeFollower _ hn)
  cases r.findPeer m.fromId with
  | none => exact names_pure _
  | some p => exact names_set fun _ => ⟨rfl, rfl⟩

theorem names_handleApplyCommitLogs (m : ApplyCommitLogsResponseMessage) :
    Frame (Names a S) (handleApplyCommitLogs m) := by
  refine names_bind (names_set fun _ => ⟨rfl, rfl⟩) fun _ => ?_
  exact names_bind (names_set fun _ => ⟨rfl, rfl⟩) fun _ => names_checkIfNeedSnapshot

theorem names_truncateBefore (j : Int) : Frame (Names a S) (assign (truncateBefore j)) := by
  apply names_set
  intro r
  rw [truncateBefore_eq]
  exact ⟨rfl, rfl⟩

theorem names_handleGenerateSnapshot (m : GenerateSnapshotResponseMessage) :
    Frame (Names a S) (handleGenerateSnapshot m) := by
  apply Frame.ite (names_pure _)
  apply names_bind (names_truncateBefore _)
  intro _
  refine names_bind (names_set fun _ => ⟨rfl, rfl⟩) fun _ => ?_
  exact names_bind names_persist fun _ => names_set fun _ => ⟨rfl, rfl⟩

theorem names_handleApplySnapshot (m : ApplySnapshotResponseMessage) :
    Frame (Names a S) (handleApplySnapshot m) := by
  apply Frame.ite (names_push rfl)
  apply names_bind (names_truncateBefore _)
  intro _
  apply names_fields
  intro r _
  exact names_bind (names_set fun _ => ⟨rfl, rfl⟩) fun _ => names_push rfl

theorem names_handleKVOperationRequest (m : KVOperationRequestMessage) :
    Frame (Names a S) (handleKVOperationRequest m) := by
  apply names_fields
  intro r _
  apply Frame.ite (names_push rfl)
  cases commandText m.opType m.key m.value with
  | none => exact names_push rfl
  | some text =>
    refine names_bind (names_set fun _ => ⟨rfl, rfl⟩) fun _ => ?_
    apply names_bind names_persist
    intro _
    exact names_bind (names_set fun _ => ⟨rfl, rfl⟩) fun _ => names_sendAppendEntries false

theorem names_handleShutdown : Frame (Names a S) handleShutdown :=
  names_bind (names_set fun _ => ⟨rfl, rfl⟩) fun _ => names_push rfl

theorem names_command (i : Input) (hn : S (-1)) (ha : S a) (hi : ∀ x ∈ i.fromLeader, S x.1) :
    Frame (Names a S) (command i) := by
  cases i with
  | electionTimeout =>
    exact names_fields fun _ _ => Frame.ite names_becomeCandidate (names_pure _)
  | heartbeatTimeout =>
    exact names_fields fun _ _ => Frame.ite (names_sendAppendEntries true) (names_pure _)
  | message m =>
    cases m with
    | requestVoteRequest m => exact names_handleRequestVoteRequest m hn
    | requestVoteResponse m => exact names_handleRequestVoteResponse m hn ha
    | appendEntriesRequest m => exact names_handleAppendEntriesRequest m (hi _ rfl)
    | appendEntriesResponse m => exact names_handleAppendEntriesResponse m hn
    | installSnapshotRequest m => exact names_handleInstallSnapshotRequest m (hi _ rfl)
    | installSnapshotResponse m => exact names_handleInstallSnapshotResponse m hn
    | kvOperationRequest m => exact names_handleKVOperationRequest m
    | applyCommitLogsResponse m => exact names_handleApplyCommitLogs m
    | generateSnapshotResponse m => exact names_handleGenerateSnapshot m
    | applySnapshotResponse m => exact names_handleApplySnapshot m
    | shutdown => exact names_handleShutdown
    | _ => exact names_pure _

end Names

/-- The node is one of `ids`, and so is the leader that it knows, if it knows one. -/
structure KnowsWithin (ids : List Int) (r : Raft) : Prop where
  self : r.id ∈ ids
  leader : r.leaderId = -1 ∨ r.leaderId ∈ ids

/-- The requests of leaders come from configured nodes. -/
def FromPeers (ids : List Int) (_ : Raft) (i : Input) : Prop := ∀ x ∈ i.fromLeader, x.1 ∈ ids

section Step

variable {ids : List Int} {r : Raft} {i : Input}

theorem react_names (h : r.KnowsWithin ids) (hi : FromPeers ids r i) :
    Names r.id (fun l => l = -1 ∨ l ∈ ids) { raft := r, effects := [] }
      (endScope ((command i).run { raft := r, effects := [] })) :=
  names_command i (.inl rfl) (.inr h.self) (fun x hx => .inr (hi x hx)) _

theorem KnowsWithin.react (h : r.KnowsWithin ids) (hi : FromPeers ids r i) :
    (r.react i).raft.KnowsWithin ids := by
  obtain ⟨hid, hl, _⟩ := react_names h hi rfl
  rw [react_eq]
  constructor
  · rw [hid]
    exact h.self
  · rcases hl with hl | hl
    · rw [hl]
      exact h.leader
    · exact hl

/-- The requests that a leader makes are signed with its own id. -/
theorem react_signed (h : r.KnowsWithin ids) (hi : FromPeers ids r i) :
    ∀ m ∈ (r.react i).pushed, ∀ x ∈ m.fromLeader, x.1 = r.id := by
  obtain ⟨_, _, es, hes, hsent⟩ := react_names h hi rfl
  rw [react_eq]
  unfold Reaction.pushed
  rw [show (endScope ((command i).run { raft := r, effects := [] })).effects = es from hes]
  exact hsent

end Step

/-! ## Redirects -/

/-- The ids of the nodes are positions in the vector `_Peers`, which has one address for each
of them. -/
def Positions (ids : List Int) : Prop := ∀ a ∈ ids, 0 ≤ a ∧ a < ids.length

/-- A refusal of the operation names a position in `_Peers`. -/
def RedirectsWithin (ids : List Int) (r : Raft) (m : KVOperationRequestMessage) : Prop :=
  ∀ q : KVOperationResponseMessage,
    .kvOperationResponse q ∈ (r.react (.message (.kvOperationRequest m))).pushed →
      q.success = false → 0 ≤ q.leaderId ∧ q.leaderId < ids.length

instance (ids : List Int) : Decidable (Positions ids) := by
  unfold Positions
  infer_instance

instance (ids : List Int) (r : Raft) (i : Input) : Decidable (FromPeers ids r i) := by
  unfold FromPeers
  infer_instance

section Redirect

variable {ids : List Int} {r : Raft} {m : KVOperationRequestMessage}

theorem pushed_of_refused (h : r.role ≠ .leader) :
    (r.react (.message (.kvOperationRequest m))).pushed =
      [.kvOperationResponse { seq := m.seq, uuid := m.uuid, leaderId := r.leaderId, key := m.key,
                              value := m.value, success := false }] := by
  rw [react_eq]
  show pushedOf (endScope ((handleKVOperationRequest m).run _)).effects = _
  unfold handleKVOperationRequest
  rw [bind_run, fields_run]
  simp only
  rw [ite_run, if_pos h]
  rfl

/-- A leader refuses nothing: what it answers at once is the agreement to a read. -/
theorem success_of_leader (h : r.role = .leader) {q : KVOperationResponseMessage}
    (hq : .kvOperationResponse q ∈ (r.react (.message (.kvOperationRequest m))).pushed) :
    q.success = true := by
  obtain ⟨m', hm, hw⟩ := react_emitted r _ _ hq
  obtain rfl : m = m' := by
    injection hm with hm
    injection hm
  have hnone : commandText m.opType m.key m.value = none := by
    rw [writeOf, if_pos h] at hw
    exact Option.map_eq_none_iff.mp hw
  have hrun : (r.react (.message (.kvOperationRequest m))).pushed =
      [.kvOperationResponse { seq := m.seq, uuid := m.uuid, opType := .get, key := m.key,
                              value := m.value, success := true }] := by
    rw [react_eq]
    show pushedOf (endScope ((handleKVOperationRequest m).run _)).effects = _
    unfold handleKVOperationRequest
    rw [bind_run, fields_run]
    simp only
    rw [ite_run, if_neg (not_not.mpr h), hnone]
    rfl
  rw [hrun] at hq
  have heq := RaftMessage.kvOperationResponse.inj (List.mem_singleton.mp hq)
  rw [heq]

theorem KnowsWithin.redirects (h : r.KnowsWithin ids) (hids : Positions ids) :
    RedirectsWithin ids r m ↔ (r.role ≠ .leader → r.leaderId ≠ -1) := by
  constructor
  · intro hw hrole hnone
    have hq : 0 ≤ r.leaderId :=
      (hw _ (by rw [pushed_of_refused hrole]; exact List.mem_singleton_self _) rfl).1
    omega
  · intro hknown q hq hfail
    by_cases hrole : r.role = .leader
    · rw [success_of_leader hrole hq] at hfail
      cases hfail
    · rw [pushed_of_refused hrole] at hq
      have hleader : q.leaderId = r.leaderId :=
        congrArg KVOperationResponseMessage.leaderId
          (RaftMessage.kvOperationResponse.inj (List.mem_singleton.mp hq))
      rw [hleader]
      rcases h.leader with hl | hl
      · exact absurd hl (hknown hrole)
      · exact hids _ hl

end Redirect

end Raft

/-! ## Runs of a node -/

open Raft Process

theorem restart_knowsWithin {id : Int} {ids : List Int} (hid : id ∈ ids)
    (file : Option RaftPersistData) : (restart id ids file).KnowsWithin ids := by
  cases file with
  | none => exact ⟨hid, .inl rfl⟩
  | some d => exact ⟨hid, .inl rfl⟩

theorem upholds_knowsWithin (ids : List Int) :
    Upholds (FromPeers ids) (·.raft.KnowsWithin ids) (·.raft.KnowsWithin ids) where
  perm := fun _ _ h _ => h
  permWeak := fun _ _ h _ => h
  receive := fun _ _ h _ => h
  drop := fun _ _ _ h _ => h
  answer := fun _ _ _ _ _ h _ _ => h
  core := fun _ _ _ h _ hg _ => h.react hg
  dies := fun _ _ _ h _ hg => h.react hg
  weak := fun _ h => h

/-- In every state of every life of a node: a client operation is redirected to a position in
the vector of the peers if and only if the node leads or knows a leader. -/
theorem redirectsWithin_iff (id : Int) (ids : List Int) (hids : Positions ids) (hid : id ∈ ids)
    (p : Process) (hl : Lives (Obeys (FromPeers ids)) id ids p)
    (m : KVOperationRequestMessage) :
    RedirectsWithin ids p.raft m ↔ (p.raft.role ≠ .leader → p.raft.leaderId ≠ -1) := by
  have hknows := ((upholds_knowsWithin ids).lives (F := fun _ => True) trivial
    (fun file _ => restart_knowsWithin hid file) (fun _ _ => trivial) hl).2
  exact hknows.redirects hids

/-- A heartbeat of node 0 reaches node 1. -/
def firstHeartbeat : List Event :=
  [.request 0 (.appendEntriesRequest
    { term := 1, fromId := 0, prevLogIndex := 0, prevLogTerm := 0, leaderCommit := 0 }),
    .handle]

theorem redirectsWithin_follower :
    ∃ p, Lives (Obeys (FromPeers [0, 1, 2])) 1 [0, 1, 2] p ∧ p.raft.leaderId = 0 ∧
      ∀ m, RedirectsWithin [0, 1, 2] p.raft m ↔
        (p.raft.role ≠ .leader → p.raft.leaderId ≠ -1) := by
  obtain ⟨p, hr, hp⟩ := Reaches.of_exec (Obeys (FromPeers [0, 1, 2])) 1 [0, 1, 2] none
    firstHeartbeat (fun p => decide (p.raft.leaderId = 0)) (by decide)
  exact ⟨p, .first hr, of_decide_eq_true hp,
    redirectsWithin_iff 1 [0, 1, 2] (by decide) (by decide) p (.first hr)⟩

/-- A node that has just started redirects to the position -1. -/
theorem redirect_before_leader :
    ¬ ∀ (id : Int) (ids : List Int) (p : Process), Positions ids → id ∈ ids →
      Lives (Obeys (FromPeers ids)) id ids p → ∀ m, RedirectsWithin ids p.raft m := by
  intro h
  have hw := h 1 [0, 1, 2] (init 1 [0, 1, 2] none) (by decide) (by decide)
    (.first ⟨[], .nil _⟩) { uuid := ['u'], opType := .get, key := ['a'], value := [] }
  have hneg := (hw _ (List.mem_singleton_self _) rfl).1
  exact absurd hneg (by decide)

end WWRaftKV
