/-
What one step of the core does to its list of peers.

A leader keeps a match index and a next index for every peer.  `react_peers` is the
inversion lemma: a step leaves the list as it is, ends the leadership, or changes it in one
of four ways.
-/
import WWRaftKV.Core.Ballot

namespace WWRaftKV

namespace Raft

open RaftM

/-- How one step of the core changes the peers. -/
inductive PeersStep (r : Raft) (i : Input) (r' : Raft) : Prop
  | keep (h : r'.peers = r.peers) (hr : r'.role = .leader → r.role = .leader)
  | stepDown (h : r'.role = .follower)
  | elected (m : RaftRequestVoteResponseMessage) (hi : i = .message (.requestVoteResponse m))
      (h : r'.peers = r.peers.map r.resetPeer)
  | confirmed (m : RaftAppendEntriesResponseMessage) (p : RaftPeer)
      (hi : i = .message (.appendEntriesResponse m)) (hr : r.role = .leader)
      (ht : m.term ≤ r.term) (hf : r.findPeer m.fromId = some p) (hs : m.success = true)
      (h : r'.peers = updatePeer m.fromId (·.setProgress m.lastLogIndex) r.peers)
  | refused (m : RaftAppendEntriesResponseMessage) (p : RaftPeer)
      (hi : i = .message (.appendEntriesResponse m)) (hr : r.role = .leader)
      (ht : m.term ≤ r.term) (hf : r.findPeer m.fromId = some p) (hs : m.success = false)
      (hn : p.nextIndex > 1)
      (h : r'.peers = updatePeer m.fromId (·.setNextIndex (p.nextIndex - 1)) r.peers)
  | shipped (m : RaftInstallSnapshotResponseMessage) (p : RaftPeer)
      (hi : i = .message (.installSnapshotResponse m)) (hr : r.role = .leader)
      (ht : m.term = r.term) (hf : r.findPeer m.fromId = some p)
      (h : r'.peers = updatePeer m.fromId (·.setProgress r.lastIncludedIndex) r.peers)

section Steps

variable {r : Raft} {i : Input} {c : RaftM Unit}

/-- The step of a command, as far as the peers go. -/
def StepsPeers (r : Raft) (i : Input) (c : RaftM Unit) : Prop :=
  PeersStep r i (endScope (c.run { raft := r, effects := [] })).raft

theorem peers_of_keep (h : Frame (KeepsView office) c) : StepsPeers r i c :=
  have hkeep := (h { raft := r, effects := [] }).1
  .keep (congrArg (·.1.2) hkeep) (congrArg (·.1.1.role) hkeep).symm.trans

theorem peers_becomeFollower {l : Int} {t : Nat} : StepsPeers r i (becomeFollower l t) := by
  unfold StepsPeers
  rw [becomeFollower_run]
  exact .stepDown rfl

theorem peers_observe {l : Int} {t : Nat} (h : Frame (KeepsView office) c) :
    StepsPeers r i (observeTerm l t >>= fun _ => c) := by
  unfold StepsPeers
  rw [bind_run, observeTerm_run]
  have hkeep := h { raft := r.observe l t, effects := [] ++ r.observeEffects l t }
  apply PeersStep.keep ((congrArg (·.1.2) hkeep.1).trans (observe_peers l t))
  intro hl
  have hrole : (r.observe l t).role = .leader :=
    (congrArg (·.1.1.role) hkeep.1).symm.trans hl
  unfold observe at hrole
  split at hrole
  · cases hrole
  · exact hrole

theorem becomeLeader_peers (r : Raft) (es : List Effect) :
    (endScope (becomeLeader.run { raft := r, effects := es })).raft.peers =
      r.peers.map r.resetPeer := by
  simp only [becomeLeader, bind_run, assign_run, persist_run]
  obtain ⟨hk, _⟩ := keep_sendAppendEntries true {
    raft := r.toLeader.setPeers (r.toLeader.peers.map r.toLeader.resetPeer)
    effects := es ++ [.persist r.toLeader.persistData] }
  exact congrArg (·.1.2) hk

theorem peers_handleRequestVoteResponse (r : Raft) (m : RaftRequestVoteResponseMessage) :
    StepsPeers r (.message (.requestVoteResponse m)) (handleRequestVoteResponse m) := by
  unfold StepsPeers handleRequestVoteResponse
  rw [bind_run, fields_run]
  simp only
  rw [ite_run]
  by_cases hr : r.role ≠ .candidate
  · rw [if_pos hr, pure_run]
    exact .keep rfl fun h => h
  rw [if_neg hr, ite_run]
  by_cases hgt : m.term > r.term
  · rw [if_pos hgt]
    exact peers_becomeFollower
  rw [if_neg hgt, ite_run]
  by_cases hlt : m.term < r.term
  · rw [if_pos hlt, pure_run]
    exact .keep rfl fun h => h
  rw [if_neg hlt, ite_run]
  by_cases hg : m.voteGranted = true
  · rw [if_pos hg, bind_run, assign_run]
    simp only
    rw [bind_run, fields_run]
    simp only
    rw [ite_run]
    by_cases hc : r.countVote.voteCount > r.countVote.peers.length / 2
    · rw [if_pos hc]
      exact .elected m rfl (becomeLeader_peers r.countVote [])
    · rw [if_neg hc, pure_run]
      exact .keep rfl fun h => h
  · rw [if_neg hg, pure_run]
    exact .keep rfl fun h => h

theorem peers_handleAppendEntriesRequest (r : Raft) (m : RaftAppendEntriesRequestMessage) :
    StepsPeers r (.message (.appendEntriesRequest m)) (handleAppendEntriesRequest m) := by
  unfold StepsPeers handleAppendEntriesRequest
  rw [bind_run, fields_run]
  simp only
  rw [ite_run]
  split
  · rw [push_run]
    exact .keep rfl fun h => h
  · exact peers_observe (keep_replicate m)

theorem peers_handleAppendEntriesResponse (r : Raft) (m : RaftAppendEntriesResponseMessage) :
    StepsPeers r (.message (.appendEntriesResponse m)) (handleAppendEntriesResponse m) := by
  unfold StepsPeers handleAppendEntriesResponse
  rw [bind_run, fields_run]
  simp only
  rw [ite_run]
  by_cases hr : r.role ≠ .leader
  · rw [if_pos hr, pure_run]
    exact .keep rfl fun h => h
  rw [if_neg hr, ite_run]
  by_cases hgt : m.term > r.term
  · rw [if_pos hgt]
    exact peers_becomeFollower
  rw [if_neg hgt]
  have hlead : r.role = .leader := not_not.mp hr
  have hle : m.term ≤ r.term := Nat.le_of_not_gt hgt
  cases hf : r.findPeer m.fromId with
  | none => exact .keep rfl fun h => h
  | some p =>
    dsimp only
    rw [ite_run]
    by_cases hs : m.success = true
    · rw [if_pos hs, bind_run, assign_run]
      obtain ⟨hk, _⟩ := keep_commitMajority
        { raft := r.setPeers (updatePeer m.fromId (·.setProgress m.lastLogIndex) r.peers)
          effects := [] }
      exact .confirmed m p rfl hlead hle hf hs (congrArg (·.1.2) hk)
    · rw [if_neg hs, ite_run]
      by_cases hn : p.nextIndex > 1
      · rw [if_pos hn, assign_run]
        exact .refused m p rfl hlead hle hf (Bool.eq_false_iff.mpr hs) hn rfl
      · rw [if_neg hn, pure_run]
        exact .keep rfl fun h => h

theorem peers_handleInstallSnapshotRequest (r : Raft) (m : RaftInstallSnapshotRequestMessage) :
    StepsPeers r (.message (.installSnapshotRequest m)) (handleInstallSnapshotRequest m) := by
  unfold StepsPeers handleInstallSnapshotRequest
  rw [bind_run, fields_run]
  simp only
  rw [ite_run]
  split
  · rw [push_run]
    exact .keep rfl fun h => h
  · refine peers_observe (keep_bind keep_fields fun r => ?_)
    exact Frame.ite (keep_push rfl) (keep_push rfl)

theorem peers_handleInstallSnapshotResponse (r : Raft)
    (m : RaftInstallSnapshotResponseMessage) :
    StepsPeers r (.message (.installSnapshotResponse m)) (handleInstallSnapshotResponse m) := by
  unfold StepsPeers handleInstallSnapshotResponse
  rw [bind_run, fields_run]
  simp only
  rw [ite_run]
  by_cases hr : r.role ≠ .leader
  · rw [if_pos hr, pure_run]
    exact .keep rfl fun h => h
  rw [if_neg hr, ite_run]
  by_cases hlt : m.term < r.term
  · rw [if_pos hlt, pure_run]
    exact .keep rfl fun h => h
  rw [if_neg hlt, ite_run]
  by_cases hgt : m.term > r.term
  · rw [if_pos hgt]
    exact peers_becomeFollower
  rw [if_neg hgt]
  cases hf : r.findPeer m.fromId with
  | none => exact .keep rfl fun h => h
  | some p =>
    dsimp only
    rw [assign_run]
    exact .shipped m p rfl (not_not.mp hr) (by omega) hf rfl

/-! ### Commands that push votes -/

/-- The peers are kept. -/
def KeepsPeers (s s' : Scope) : Prop := s'.raft.peers = s.raft.peers

theorem keepsPeers_refl (s : Scope) : KeepsPeers s s := rfl

theorem keepsPeers_trans (a b c : Scope) (h : KeepsPeers a b) (g : KeepsPeers b c) :
    KeepsPeers a c := g.trans h

theorem keepsPeers_bind {α β : Type} {c : RaftM α} {f : α → RaftM β} (hc : Frame KeepsPeers c)
    (hf : ∀ a, Frame KeepsPeers (f a)) : Frame KeepsPeers (c >>= f) :=
  Frame.bind keepsPeers_trans hc hf

theorem keepsPeers_fields : Frame KeepsPeers fields := fun _ => rfl

theorem keepsPeers_assign {f : Raft → Raft} (h : ∀ r, (f r).peers = r.peers) :
    Frame KeepsPeers (assign f) := fun s => h s.raft

theorem keepsPeers_persist : Frame KeepsPeers persist := fun _ => rfl

theorem keepsPeers_push (m : RaftMessage) : Frame KeepsPeers (push m) := fun _ => rfl

theorem keepsPeers_pure : Frame KeepsPeers (pure ()) := fun _ => rfl

theorem peers_of_keepsPeers (hb : Ballots r i c)
    (hi : ∀ m, i ≠ .message (.requestVoteResponse m)) (h : Frame KeepsPeers c) :
    StepsPeers r i c := by
  apply PeersStep.keep (h { raft := r, effects := [] })
  intro hl
  rcases (BallotStep.of_leader hb hl).2 with hr | ⟨m, hm⟩
  · exact hr
  · exact absurd hm (hi m)

theorem keepsPeers_observeTerm (l : Int) (t : Nat) : Frame KeepsPeers (observeTerm l t) := by
  refine keepsPeers_bind keepsPeers_fields fun r => Frame.ite ?_ keepsPeers_pure
  exact keepsPeers_bind (keepsPeers_assign fun _ => rfl) fun _ => keepsPeers_persist

theorem keepsPeers_handleRequestVoteRequest (m : RaftRequestVoteRequestMessage) :
    Frame KeepsPeers (handleRequestVoteRequest m) := by
  refine keepsPeers_bind keepsPeers_fields fun r => Frame.ite (keepsPeers_push _) ?_
  refine keepsPeers_bind (keepsPeers_observeTerm _ _) fun _ => ?_
  refine keepsPeers_bind keepsPeers_fields fun r => Frame.ite (keepsPeers_push _) ?_
  refine Frame.ite (keepsPeers_push _) ?_
  refine keepsPeers_bind (keepsPeers_assign fun _ => rfl) fun _ => ?_
  exact keepsPeers_bind keepsPeers_persist fun _ => keepsPeers_push _

theorem keepsPeers_electionTimeout : Frame KeepsPeers electionTimeout := by
  refine keepsPeers_bind keepsPeers_fields fun r => Frame.ite ?_ keepsPeers_pure
  refine keepsPeers_bind (keepsPeers_assign fun _ => rfl) fun _ => ?_
  refine keepsPeers_bind keepsPeers_persist fun _ => ?_
  refine keepsPeers_bind keepsPeers_fields fun r => ?_
  refine Frame.forM keepsPeers_refl keepsPeers_trans (fun p => ?_) _
  exact Frame.ite keepsPeers_pure (keepsPeers_push _)

theorem peers_command (r : Raft) (i : Input) : StepsPeers r i (command i) := by
  cases i with
  | electionTimeout =>
    exact peers_of_keepsPeers (ballots_electionTimeout r) nofun keepsPeers_electionTimeout
  | heartbeatTimeout => exact peers_of_keep keep_heartbeatTimeout
  | message m =>
    cases m with
    | requestVoteRequest m =>
      exact peers_of_keepsPeers (ballots_handleRequestVoteRequest r m) nofun
        (keepsPeers_handleRequestVoteRequest m)
    | requestVoteResponse m => exact peers_handleRequestVoteResponse r m
    | appendEntriesRequest m => exact peers_handleAppendEntriesRequest r m
    | appendEntriesResponse m => exact peers_handleAppendEntriesResponse r m
    | installSnapshotRequest m => exact peers_handleInstallSnapshotRequest r m
    | installSnapshotResponse m => exact peers_handleInstallSnapshotResponse r m
    | kvOperationRequest m => exact peers_of_keep (keep_handleKVOperationRequest m)
    | applyCommitLogsResponse m => exact peers_of_keep (keep_handleApplyCommitLogs m)
    | generateSnapshotResponse m => exact peers_of_keep (keep_handleGenerateSnapshot m)
    | applySnapshotResponse m => exact peers_of_keep (keep_handleApplySnapshot m)
    | shutdown => exact peers_of_keep keep_handleShutdown
    | _ => exact peers_of_keep (keep_pure _)

/-- Whatever makes the core act, also when the step throws. -/
theorem react_peers (r : Raft) (i : Input) : PeersStep r i (r.react i).raft := by
  have h := peers_command r i
  rw [react_eq]
  exact h

end Steps

/-! ## The next index of a peer -/

/-- The next index that the node keeps for a peer. -/
def nextIndexOf (r : Raft) (id : Int) : Option Int := (r.findPeer id).map (·.nextIndex)

section NextIndex

variable {r s : Raft} {id : Int} {f : RaftPeer → RaftPeer}

theorem find_updatePeer (hf : ∀ p, (f p).id = p.id) (j : Int) (ps : List RaftPeer) :
    (updatePeer id f ps).find? (fun p => p.id = j) =
      if j = id then (ps.find? fun p => p.id = j).map f else ps.find? fun p => p.id = j := by
  induction ps with
  | nil => simp [updatePeer]
  | cons p ps ih =>
    unfold updatePeer
    by_cases hp : p.id = id
    · rw [if_pos hp]
      by_cases hj : j = id
      · simp [hf, hp, hj]
      · have hne : ¬ id = j := fun h => hj h.symm
        simp [hf, hp, hj, hne]
    · rw [if_neg hp, List.find?_cons, List.find?_cons, ih]
      by_cases hj : p.id = j
      · have hne : ¬ j = id := fun h => hp (hj.trans h)
        simp [hj, hne]
      · simp [hj]

theorem nextIndexOf_of_peers (h : s.peers = r.peers) (id : Int) :
    s.nextIndexOf id = r.nextIndexOf id := by
  unfold nextIndexOf findPeer
  rw [h]

theorem nextIndexOf_updatePeer (h : s.peers = updatePeer id f r.peers)
    (hf : ∀ p, (f p).id = p.id) {p : RaftPeer} (hp : r.findPeer id = some p) (j : Int) :
    s.nextIndexOf j = if j = id then some (f p).nextIndex else r.nextIndexOf j := by
  unfold nextIndexOf findPeer at *
  rw [h, find_updatePeer hf]
  by_cases hj : j = id
  · rw [if_pos hj, if_pos hj, hj, hp]
    rfl
  · rw [if_neg hj, if_neg hj]

/-- Only the next index of the peer that is updated can have moved. -/
theorem nextIndexOf_moves (h : s.peers = updatePeer id f r.peers)
    (hf : ∀ p, (f p).id = p.id) {p : RaftPeer} (hp : r.findPeer id = some p) {j n n' : Int}
    (hn : n ∈ r.nextIndexOf j) (hn' : n' ∈ s.nextIndexOf j) (hne : n' ≠ n) :
    j = id ∧ n = p.nextIndex ∧ n' = (f p).nextIndex := by
  rw [nextIndexOf_updatePeer h hf hp] at hn'
  by_cases hj : j = id
  · rw [if_pos hj] at hn'
    rw [nextIndexOf, hj, hp] at hn
    exact ⟨hj, (Option.some.inj hn).symm, (Option.some.inj hn').symm⟩
  · rw [if_neg hj] at hn'
    exact absurd (Option.some.inj (hn'.symm.trans hn)) hne

theorem updatePeer_self (id : Int) (ps : List RaftPeer) : updatePeer id (fun p => p) ps = ps := by
  induction ps with
  | nil => rfl
  | cons p ps ih =>
    unfold updatePeer
    rw [ih]
    split <;> rfl

/-- A leader that is not behind takes the answer of a peer. -/
theorem react_answered {m : RaftAppendEntriesResponseMessage} {p : RaftPeer}
    (hr : r.role = .leader) (ht : m.term ≤ r.term) (hp : r.findPeer m.fromId = some p) :
    (r.react (.message (.appendEntriesResponse m))).raft.role = .leader ∧
      (r.react (.message (.appendEntriesResponse m))).raft.peers = updatePeer m.fromId (fun q =>
        if m.success then q.setProgress m.lastLogIndex
        else if p.nextIndex > 1 then q.setNextIndex (p.nextIndex - 1) else q) r.peers := by
  rw [react_eq]
  show (endScope ((handleAppendEntriesResponse m).run _)).raft.role = .leader ∧
    (endScope ((handleAppendEntriesResponse m).run _)).raft.peers = _
  unfold handleAppendEntriesResponse
  rw [bind_run, fields_run]
  simp only
  rw [ite_run, if_neg (not_not.mpr hr), ite_run, if_neg (Nat.not_lt.mpr ht), hp]
  dsimp only
  rw [ite_run]
  by_cases hs : m.success = true
  · simp only [hs, if_true]
    rw [bind_run, assign_run]
    obtain ⟨hk, _⟩ := keep_commitMajority
      { raft := r.setPeers (updatePeer m.fromId (·.setProgress m.lastLogIndex) r.peers)
        effects := [] }
    exact ⟨(congrArg (·.1.1.role) hk).trans hr, congrArg (·.1.2) hk⟩
  · simp only [if_neg hs]
    rw [ite_run]
    by_cases hn : p.nextIndex > 1
    · simp only [if_pos hn]
      exact ⟨hr, rfl⟩
    · simp only [if_neg hn, updatePeer_self]
      exact ⟨hr, rfl⟩

theorem nextIndexOf_answered {m : RaftAppendEntriesResponseMessage} {p : RaftPeer}
    (hr : r.role = .leader) (ht : m.term ≤ r.term) (hp : r.findPeer m.fromId = some p) :
    (r.react (.message (.appendEntriesResponse m))).raft.nextIndexOf m.fromId =
      some (if m.success then m.lastLogIndex + 1
        else if p.nextIndex > 1 then p.nextIndex - 1 else p.nextIndex) := by
  rw [nextIndexOf_updatePeer (react_answered hr ht hp).2 _ hp, if_pos rfl]
  · split
    · rfl
    · split <;> rfl
  · intro q
    split
    · rfl
    · split <;> rfl

/-- A leader takes the acknowledgement of a snapshot of its term. -/
theorem react_shipped {m : RaftInstallSnapshotResponseMessage} {p : RaftPeer}
    (hr : r.role = .leader) (ht : m.term = r.term) (hp : r.findPeer m.fromId = some p) :
    (r.react (.message (.installSnapshotResponse m))).raft =
      r.setPeers (updatePeer m.fromId (·.setProgress r.lastIncludedIndex) r.peers) := by
  rw [react_eq]
  show (endScope ((handleInstallSnapshotResponse m).run _)).raft = _
  unfold handleInstallSnapshotResponse
  rw [bind_run, fields_run]
  simp only
  rw [ite_run, if_neg (not_not.mpr hr), ite_run, if_neg (Nat.not_lt.mpr (Nat.le_of_eq ht.symm)),
    ite_run, if_neg (Nat.not_lt.mpr (Nat.le_of_eq ht)), hp]
  rfl

/-- A leader takes no more votes. -/
theorem react_vote_of_leader (hr : r.role = .leader) (m : RaftRequestVoteResponseMessage) :
    (r.react (.message (.requestVoteResponse m))).raft = r := by
  have hne : r.role ≠ .candidate := by
    rw [hr]
    exact RaftRole.noConfusion
  rw [react_eq]
  show (endScope ((handleRequestVoteResponse m).run _)).raft = _
  unfold handleRequestVoteResponse
  rw [bind_run, fields_run]
  simp only
  rw [ite_run, if_pos hne]
  rfl

end NextIndex

end Raft

end WWRaftKV
