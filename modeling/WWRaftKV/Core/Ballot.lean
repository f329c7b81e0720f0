/-
What one step of the core does to an election.

`Ballot` is the part of a node that votes read and write.  `react_ballot` is the
inversion lemma: whatever makes the core act, the ballot and the vote messages
change in one of seven ways.  The voting invariants of the cluster are derived
from it alone.
-/
import WWRaftKV.Core.Exec

namespace WWRaftKV

structure Ballot where
  id : Int
  peerIds : List Int
  term : Nat
  role : RaftRole
  votedFor : Int
  voteCount : Nat

def Raft.ballot (r : Raft) : Ballot where
  id := r.id
  peerIds := r.peers.map (·.id)
  term := r.term
  role := r.role
  votedFor := r.votedFor
  voteCount := r.voteCount

def RaftMessage.isVote : RaftMessage → Bool
  | .requestVoteRequest _ => true
  | .requestVoteResponse _ => true
  | _ => false

def votesOf (es : List Effect) : List RaftMessage :=
  (pushedOf es).filter RaftMessage.isVote

@[simp] theorem votesOf_append (es fs : List Effect) :
    votesOf (es ++ fs) = votesOf es ++ votesOf fs := by
  rw [votesOf, pushedOf_append, List.filter_append]
  rfl

@[simp] theorem votesOf_persist (d : RaftPersistData) (es : List Effect) :
    votesOf (.persist d :: es) = votesOf es := rfl

theorem votesOf_push (m : RaftMessage) (es : List Effect) :
    votesOf (.push m :: es) = if m.isVote then m :: votesOf es else votesOf es := by
  rw [votesOf, pushedOf_push, List.filter_cons]
  rfl

/-- What `v` shows of the node is kept, and no vote message is pushed. -/
def KeepsView {β : Type} (v : Raft → β) (s s' : Scope) : Prop :=
  v s'.raft = v s.raft ∧ ∃ es, s'.effects = s.effects ++ es ∧ votesOf es = []

/-- The ballot is kept and no vote message is pushed. -/
def KeepsBallot (s s' : Scope) : Prop := KeepsView Raft.ballot s s'

namespace KeepsView

variable {β : Type} {v : Raft → β}

theorem refl (s : Scope) : KeepsView v s s :=
  ⟨rfl, [], (List.append_nil _).symm, rfl⟩

theorem trans (a b c : Scope) (h : KeepsView v a b) (g : KeepsView v b c) :
    KeepsView v a c := by
  obtain ⟨hb, es, hes, hv⟩ := h
  obtain ⟨gb, fs, gfs, gv⟩ := g
  refine ⟨gb.trans hb, es ++ fs, ?_, ?_⟩
  · rw [gfs, hes, List.append_assoc]
  · rw [votesOf_append, hv, gv]
    rfl

end KeepsView

namespace Raft

open RaftM

/-- The ballot, and the peers with their progress. -/
def roster (r : Raft) : Ballot × List RaftPeer := (r.ballot, r.peers)

/-- The roster, and the leader that the node knows. -/
def office (r : Raft) : (Ballot × List RaftPeer) × Int := (r.roster, r.leaderId)

/-! ## Commands that keep the ballot -/

section Keep

variable {α β γ : Type} {v : Raft → γ}

theorem keep_pure (a : α) : Frame (KeepsView v) (pure a : RaftM α) :=
  Frame.pure KeepsView.refl a

theorem keep_bind {c : RaftM α} {f : α → RaftM β} (hc : Frame (KeepsView v) c)
    (hf : ∀ a, Frame (KeepsView v) (f a)) : Frame (KeepsView v) (c >>= f) :=
  Frame.bind KeepsView.trans hc hf

theorem keep_fields : Frame (KeepsView v) fields := Frame.fields KeepsView.refl

theorem keep_orThrow (x : Option α) : Frame (KeepsView v) (orThrow x) :=
  Frame.orThrow KeepsView.refl x

theorem keep_assign {f : Raft → Raft} (h : ∀ r, v (f r) = v r) :
    Frame (KeepsView v) (assign f) :=
  fun s => ⟨h s.raft, [], (List.append_nil _).symm, rfl⟩

theorem keep_persist : Frame (KeepsView v) persist := fun _ => ⟨rfl, _, rfl, rfl⟩

theorem keep_push {m : RaftMessage} (h : m.isVote = false) : Frame (KeepsView v) (push m) := by
  intro s
  refine ⟨rfl, [.push m], rfl, ?_⟩
  rw [votesOf_push, h]
  rfl

/-- A command that keeps the office keeps the ballot. -/
theorem keep_ballot {c : RaftM α} (h : Frame (KeepsView office) c) : Frame KeepsBallot c :=
  fun s => ⟨congrArg (·.1.1) (h s).1, (h s).2⟩

end Keep

theorem ballot_setPeers {r : Raft} {ps : List RaftPeer}
    (h : ps.map (·.id) = r.peers.map (·.id)) : (r.setPeers ps).ballot = r.ballot := by
  simp only [ballot, setPeers, h]

theorem mem_updatePeer {id : Int} {f : RaftPeer → RaftPeer} {ps : List RaftPeer} {p : RaftPeer}
    (h : p ∈ updatePeer id f ps) : p ∈ ps ∨ ∃ q ∈ ps, q.id = id ∧ p = f q := by
  induction ps with
  | nil => cases h
  | cons q ps ih =>
    rw [updatePeer] at h
    split at h
    next hq =>
      rcases List.mem_cons.mp h with rfl | h
      · exact .inr ⟨q, List.mem_cons_self, hq, rfl⟩
      · exact .inl (List.mem_cons_of_mem q h)
    next hq =>
      rcases List.mem_cons.mp h with rfl | h
      · exact .inl List.mem_cons_self
      · rcases ih h with h | ⟨x, hx, hxq⟩
        · exact .inl (List.mem_cons_of_mem q h)
        · exact .inr ⟨x, List.mem_cons_of_mem q hx, hxq⟩

theorem updatePeer_ids (id : Int) {f : RaftPeer → RaftPeer} (hf : ∀ p, (f p).id = p.id)
    (ps : List RaftPeer) : (updatePeer id f ps).map (·.id) = ps.map (·.id) := by
  induction ps with
  | nil => rfl
  | cons p ps ih =>
    rw [updatePeer]
    split
    · rw [List.map_cons, List.map_cons, hf]
    · rw [List.map_cons, List.map_cons, ih]

theorem ballot_updatePeer (r : Raft) (id : Int) {f : RaftPeer → RaftPeer}
    (hf : ∀ p, (f p).id = p.id) :
    (r.setPeers (updatePeer id f r.peers)).ballot = r.ballot :=
  ballot_setPeers (updatePeer_ids id hf r.peers)

theorem office_truncateAfter (i : Int) (r : Raft) :
    (r.truncateAfter i).office = r.office := by
  unfold truncateAfter
  split <;> rfl

theorem office_truncateBefore (i : Int) (r : Raft) :
    (r.truncateBefore i).office = r.office := by
  unfold truncateBefore
  split <;> rfl

theorem keep_sendAppendEntries (hb : Bool) : Frame (KeepsView office) (sendAppendEntries hb) := by
  refine keep_bind keep_fields fun r => Frame.forM KeepsView.refl KeepsView.trans ?_ _
  intro peer
  refine keep_bind keep_fields fun r => Frame.ite (keep_pure _) (Frame.ite ?_ ?_)
  · exact keep_push rfl
  · exact keep_bind (keep_orThrow _) fun _ => keep_push rfl

theorem keep_applyCommitLogs : Frame (KeepsView office) applyCommitLogs := by
  refine keep_bind keep_fields fun r => Frame.ite (keep_pure _) ?_
  refine keep_bind (keep_assign fun _ => rfl) fun _ => ?_
  exact keep_bind (keep_orThrow _) fun _ => keep_push rfl

theorem keep_generateSnapshot : Frame (KeepsView office) generateSnapshot :=
  keep_bind keep_fields fun _ => keep_bind (keep_orThrow _) fun _ => keep_push rfl

theorem keep_checkIfNeedSnapshot : Frame (KeepsView office) checkIfNeedSnapshot := by
  refine keep_bind keep_fields fun r => Frame.ite (keep_pure _) ?_
  refine keep_bind (keep_assign fun _ => rfl) fun _ => Frame.ite keep_generateSnapshot ?_
  exact keep_assign fun _ => rfl

theorem keep_rejectEntries (i : Int) (m : RaftAppendEntriesResponseMessage) :
    Frame (KeepsView office) (rejectEntries i m) := by
  refine keep_bind (keep_assign (office_truncateAfter i)) fun _ => ?_
  refine keep_bind (keep_push rfl) fun _ => keep_bind keep_fields fun _ => ?_
  exact keep_bind (keep_orThrow _) fun _ => keep_pure _

theorem keep_syncLogs (entries : List RaftLogEntry) :
    Frame (KeepsView office) (syncLogs entries) := by
  refine Frame.ite (keep_pure _) ?_
  refine keep_bind (keep_assign fun _ => rfl) fun _ => keep_bind keep_persist fun _ => ?_
  exact keep_assign fun _ => rfl

theorem keep_followCommit (c : Int) : Frame (KeepsView office) (followCommit c) := by
  refine keep_bind keep_fields fun r => Frame.ite ?_ (keep_pure _)
  exact keep_bind (keep_assign fun _ => rfl) fun _ => keep_applyCommitLogs

theorem keep_commitMajority : Frame (KeepsView office) commitMajority := by
  refine keep_bind keep_fields fun r => keep_bind (keep_orThrow _) fun t => ?_
  refine Frame.ite ?_ (keep_pure _)
  refine keep_bind (keep_assign fun _ => rfl) fun _ => ?_
  exact keep_bind keep_applyCommitLogs fun _ => keep_checkIfNeedSnapshot

theorem keep_handleKVOperationRequest (m : KVOperationRequestMessage) :
    Frame (KeepsView office) (handleKVOperationRequest m) := by
  refine keep_bind keep_fields fun r => Frame.ite (keep_push rfl) ?_
  cases commandText m.opType m.key m.value with
  | none => exact keep_push rfl
  | some command =>
    refine keep_bind (keep_assign fun _ => rfl) fun _ => keep_bind keep_persist fun _ => ?_
    exact keep_bind (keep_assign fun _ => rfl) fun _ => keep_sendAppendEntries false

theorem keep_handleApplyCommitLogs (m : ApplyCommitLogsResponseMessage) :
    Frame (KeepsView office) (handleApplyCommitLogs m) := by
  refine keep_bind (keep_assign fun _ => rfl) fun _ => ?_
  exact keep_bind (keep_assign fun _ => rfl) fun _ => keep_checkIfNeedSnapshot

theorem keep_handleGenerateSnapshot (m : GenerateSnapshotResponseMessage) :
    Frame (KeepsView office) (handleGenerateSnapshot m) := by
  refine Frame.ite (keep_pure _) ?_
  refine keep_bind (keep_assign (office_truncateBefore _)) fun _ => ?_
  refine keep_bind (keep_assign fun _ => rfl) fun _ => keep_bind keep_persist fun _ => ?_
  exact keep_assign fun _ => rfl

theorem keep_handleApplySnapshot (m : ApplySnapshotResponseMessage) :
    Frame (KeepsView office) (handleApplySnapshot m) := by
  refine Frame.ite (keep_push rfl) ?_
  refine keep_bind (keep_assign (office_truncateBefore _)) fun _ => ?_
  refine keep_bind keep_fields fun r => keep_bind (keep_assign fun _ => rfl) fun _ => ?_
  exact keep_push rfl

/-! ## The inversion lemma -/

/-- How one step of the core changes the ballot, and the vote messages it
pushes. -/
inductive BallotStep (r : Raft) : Input → Raft → List RaftMessage → Prop
  | keep {i : Input} {r' : Raft} (h : r'.ballot = r.ballot) : BallotStep r i r' []
  | stepDown {i : Input} {r' : Raft} (ht : r.term < r'.term)
      (h : r'.ballot =
        { r.ballot with term := r'.term, role := .follower, votedFor := -1 }) :
      BallotStep r i r' []
  | stand (hr : r.role ≠ .leader) :
      BallotStep r .electionTimeout r.toCandidate r.toCandidate.voteRequests
  | refuse {m : RaftRequestVoteRequestMessage} {r' : Raft}
      (h : r' = r.observe (-1) m.term) :
      BallotStep r (.message (.requestVoteRequest m)) r'
        [.requestVoteResponse { seq := m.seq, term := r'.term, voteGranted := false }]
  | grant {m : RaftRequestVoteRequestMessage} (ht : r.term ≤ m.term)
      (hv : (r.observe (-1) m.term).votedFor = -1 ∨
        (r.observe (-1) m.term).votedFor = m.fromId)
      (hl : r.logUpToDate m.lastLogIndex m.lastLogTerm = true) :
      BallotStep r (.message (.requestVoteRequest m))
        ((r.observe (-1) m.term).setVotedFor m.fromId)
        [.requestVoteResponse { seq := m.seq, term := m.term, voteGranted := true }]
  | count {m : RaftRequestVoteResponseMessage} (hr : r.role = .candidate)
      (ht : m.term = r.term) (hg : m.voteGranted = true)
      (hc : ¬ r.voteCount + 1 > r.peers.length / 2) :
      BallotStep r (.message (.requestVoteResponse m)) r.countVote []
  | elect {m : RaftRequestVoteResponseMessage} {r' : Raft} (hr : r.role = .candidate)
      (ht : m.term = r.term) (hg : m.voteGranted = true)
      (hc : r.voteCount + 1 > r.peers.length / 2)
      (h : r'.ballot = { r.ballot with role := .leader, votedFor := -1, voteCount := 0 }) :
      BallotStep r (.message (.requestVoteResponse m)) r' []

section Steps

variable (r : Raft)

/-- The step of a command, as far as votes go. -/
def Ballots (i : Input) (c : RaftM Unit) : Prop :=
  BallotStep r i (endScope (c.run { raft := r, effects := [] })).raft
    (votesOf (endScope (c.run { raft := r, effects := [] })).effects)

variable {r}

theorem ballots_of_keep {i : Input} {c : RaftM Unit} (h : Frame KeepsBallot c) :
    Ballots r i c := by
  obtain ⟨hb, es, hes, hv⟩ := h { raft := r, effects := [] }
  unfold Ballots
  rw [hes, List.nil_append, hv]
  exact .keep hb

theorem observe_le {l : Int} {t : Nat} (h : ¬ t > r.term) : r.observe l t = r := by
  rw [observe, if_neg h]

theorem observe_gt {l : Int} {t : Nat} (h : t > r.term) :
    r.observe l t = r.toFollower l t := by
  rw [observe, if_pos h]

theorem observe_id (l : Int) (t : Nat) : (r.observe l t).id = r.id := by
  unfold observe
  split <;> rfl

theorem observe_peers (l : Int) (t : Nat) : (r.observe l t).peers = r.peers := by
  unfold observe
  split <;> rfl

theorem votesOf_observeEffects (l : Int) (t : Nat) :
    votesOf (r.observeEffects l t) = [] := by
  unfold observeEffects
  split <;> rfl

/-- A step down pushes nothing. -/
theorem ballots_becomeFollower {i : Input} {l : Int} {t : Nat} (h : t > r.term) :
    Ballots r i (becomeFollower l t) := by
  unfold Ballots
  rw [becomeFollower_run]
  exact .stepDown h rfl

/-- A term test followed by commands that keep the ballot. -/
theorem observe_run_ballot {l : Int} {t : Nat} {c : RaftM Unit} (h : Frame KeepsBallot c) :
    (endScope ((observeTerm l t >>= fun _ => c).run { raft := r, effects := [] })).raft.ballot =
        (r.observe l t).ballot ∧
      votesOf (endScope ((observeTerm l t >>= fun _ => c).run
        { raft := r, effects := [] })).effects = [] := by
  rw [bind_run, observeTerm_run]
  obtain ⟨hb, es, hes, hv⟩ := h { raft := r.observe l t, effects := r.observeEffects l t }
  simp only [List.nil_append]
  rw [hes, votesOf_append, hv, votesOf_observeEffects, List.append_nil]
  exact ⟨hb, rfl⟩

theorem ballots_observe {i : Input} {l : Int} {t : Nat} {c : RaftM Unit}
    (h : Frame KeepsBallot c) :
    Ballots r i (observeTerm l t >>= fun _ => c) := by
  obtain ⟨hb, hv⟩ := observe_run_ballot (r := r) (l := l) (t := t) h
  unfold Ballots
  rw [hv]
  by_cases ht : t > r.term
  · rw [observe_gt ht] at hb
    have hterm := congrArg Ballot.term hb
    refine .stepDown ?_ ?_
    · exact Nat.lt_of_lt_of_eq ht hterm.symm
    · rw [hb]
      simp only [ballot, toFollower_term] at hterm ⊢
      rw [hterm]
      rfl
  · rw [observe_le ht] at hb
    exact .keep hb

end Steps

theorem ballots_electionTimeout (r : Raft) : Ballots r .electionTimeout electionTimeout := by
  unfold Ballots electionTimeout
  rw [bind_run, fields_run]
  simp only
  rw [ite_run]
  by_cases h : r.role ≠ .leader
  · rw [if_pos h, becomeCandidate_run]
    have hv : votesOf (r.toCandidate.voteRequests.map Effect.push) =
        r.toCandidate.voteRequests := by
      rw [votesOf, pushedOf_map_push]
      refine List.filter_eq_self.mpr fun m hm => ?_
      obtain ⟨p, -, rfl⟩ := List.mem_map.mp hm
      rfl
    simp only [endScope_ok, List.nil_append, votesOf_persist, hv]
    exact .stand h
  · rw [if_neg h, pure_run]
    exact .keep rfl

theorem keep_heartbeatTimeout : Frame (KeepsView office) heartbeatTimeout :=
  keep_bind keep_fields fun _ => Frame.ite (keep_sendAppendEntries true) (keep_pure _)

theorem ballots_handleRequestVoteRequest (r : Raft) (m : RaftRequestVoteRequestMessage) :
    Ballots r (.message (.requestVoteRequest m)) (handleRequestVoteRequest m) := by
  unfold Ballots handleRequestVoteRequest
  rw [bind_run, fields_run]
  simp only
  rw [ite_run]
  by_cases hlt : m.term < r.term
  · rw [if_pos hlt, push_run]
    have ho : r.observe (-1) m.term = r := observe_le (by omega)
    exact .refuse (m := m) ho.symm
  · rw [if_neg hlt, bind_run, observeTerm_run]
    simp only
    rw [bind_run, fields_run]
    simp only
    have hterm : (r.observe (-1) m.term).term = m.term := by
      by_cases ht : m.term > r.term
      · rw [observe_gt ht]
        rfl
      · rw [observe_le ht]
        omega
    have hup : (r.observe (-1) m.term).logUpToDate = r.logUpToDate := by
      unfold observe
      split <;> rfl
    rw [ite_run]
    split
    next hv =>
      rw [push_run]
      simp only [endScope_ok, List.nil_append, votesOf_append, votesOf_observeEffects]
      exact .refuse rfl
    next hv =>
      rw [ite_run]
      split
      next hl =>
        rw [push_run]
        simp only [endScope_ok, List.nil_append, votesOf_append, votesOf_observeEffects]
        exact .refuse rfl
      next hl =>
        rw [bind_run, assign_run]
        simp only
        rw [bind_run, persist_run]
        simp only
        rw [push_run]
        simp only [endScope_ok, List.nil_append, votesOf_append, votesOf_observeEffects,
          hterm]
        refine .grant (m := m) (by omega) (by tauto) ?_
        rw [← hup]
        simpa using hl

theorem ballot_resetPeers (r : Raft) :
    (r.setPeers (r.peers.map r.resetPeer)).ballot = r.ballot := by
  refine ballot_setPeers ?_
  rw [List.map_map]
  refine List.map_congr_left fun p _ => ?_
  simp only [Function.comp, resetPeer]
  split <;> rfl

theorem becomeLeader_ballot (r : Raft) (es : List Effect) :
    (endScope (becomeLeader.run { raft := r, effects := es })).raft.ballot =
        { r.ballot with role := .leader, votedFor := -1, voteCount := 0 } ∧
      votesOf (endScope (becomeLeader.run { raft := r, effects := es })).effects =
        votesOf es := by
  simp only [becomeLeader, bind_run, assign_run, persist_run]
  obtain ⟨hb, fs, hfs, hv⟩ := keep_ballot (keep_sendAppendEntries true) {
    raft := r.toLeader.setPeers (r.toLeader.peers.map r.toLeader.resetPeer)
    effects := es ++ [.persist r.toLeader.persistData] }
  rw [hb, hfs, ballot_resetPeers]
  refine ⟨rfl, ?_⟩
  rw [votesOf_append, hv, votesOf_append, List.append_nil]
  exact List.append_nil _

theorem ballots_handleRequestVoteResponse (r : Raft) (m : RaftRequestVoteResponseMessage) :
    Ballots r (.message (.requestVoteResponse m)) (handleRequestVoteResponse m) := by
  unfold Ballots handleRequestVoteResponse
  rw [bind_run, fields_run]
  simp only
  rw [ite_run]
  by_cases hr : r.role ≠ .candidate
  · rw [if_pos hr, pure_run]
    exact .keep rfl
  rw [if_neg hr, ite_run]
  by_cases hgt : m.term > r.term
  · rw [if_pos hgt]
    exact ballots_becomeFollower hgt
  rw [if_neg hgt, ite_run]
  by_cases hlt : m.term < r.term
  · rw [if_pos hlt, pure_run]
    exact .keep rfl
  rw [if_neg hlt, ite_run]
  by_cases hg : m.voteGranted = true
  · rw [if_pos hg, bind_run, assign_run]
    simp only
    rw [bind_run, fields_run]
    simp only
    rw [ite_run]
    by_cases hc : r.countVote.voteCount > r.countVote.peers.length / 2
    · rw [if_pos hc]
      obtain ⟨hb, hv⟩ := becomeLeader_ballot r.countVote []
      rw [hv]
      exact .elect (by tauto) (by omega) hg hc hb
    · rw [if_neg hc, pure_run]
      exact .count (by tauto) (by omega) hg hc
  · rw [if_neg hg, pure_run]
    exact .keep rfl

theorem keep_replicate (m : RaftAppendEntriesRequestMessage) :
    Frame (KeepsView office) (do
      let r ← fields
      let response : RaftAppendEntriesResponseMessage :=
        { seq := m.seq, fromId := r.id, term := r.term, success := false }
      let matched ← orThrow (r.logMatch m.prevLogIndex m.prevLogTerm)
      if matched then
        syncLogs m.entries
        followCommit m.leaderCommit
        let r ← fields
        push (.appendEntriesResponse
          { response with lastLogIndex := r.lastLogIndex, success := true })
      else
        rejectEntries m.prevLogIndex response) := by
  refine keep_bind keep_fields fun r => keep_bind (keep_orThrow _) fun b => ?_
  refine Frame.ite ?_ (keep_rejectEntries _ _)
  refine keep_bind (keep_syncLogs _) fun _ => keep_bind (keep_followCommit _) fun _ => ?_
  exact keep_bind keep_fields fun _ => keep_push rfl

theorem ballots_handleAppendEntriesRequest (r : Raft) (m : RaftAppendEntriesRequestMessage) :
    Ballots r (.message (.appendEntriesRequest m)) (handleAppendEntriesRequest m) := by
  unfold Ballots handleAppendEntriesRequest
  rw [bind_run, fields_run]
  simp only
  rw [ite_run]
  split
  · rw [push_run]
    exact .keep rfl
  · exact ballots_observe (keep_ballot (keep_replicate m))

theorem ballots_handleAppendEntriesResponse (r : Raft)
    (m : RaftAppendEntriesResponseMessage) :
    Ballots r (.message (.appendEntriesResponse m)) (handleAppendEntriesResponse m) := by
  unfold Ballots handleAppendEntriesResponse
  rw [bind_run, fields_run]
  simp only
  rw [ite_run]
  split
  · exact .keep rfl
  rw [ite_run]
  by_cases hgt : m.term > r.term
  · rw [if_pos hgt]
    exact ballots_becomeFollower hgt
  rw [if_neg hgt]
  cases r.findPeer m.fromId with
  | none => exact .keep rfl
  | some p =>
    refine ballots_of_keep (Frame.ite ?_ (Frame.ite ?_ (keep_pure _)))
    · refine keep_bind (keep_assign fun r => ?_) fun _ => keep_ballot keep_commitMajority
      exact ballot_updatePeer r _ fun _ => rfl
    · exact keep_assign fun r => ballot_updatePeer r _ fun _ => rfl

theorem ballots_handleInstallSnapshotRequest (r : Raft)
    (m : RaftInstallSnapshotRequestMessage) :
    Ballots r (.message (.installSnapshotRequest m)) (handleInstallSnapshotRequest m) := by
  unfold Ballots handleInstallSnapshotRequest
  rw [bind_run, fields_run]
  simp only
  rw [ite_run]
  split
  · rw [push_run]
    exact .keep rfl
  · refine ballots_observe (keep_bind keep_fields fun r => ?_)
    exact Frame.ite (keep_push rfl) (keep_push rfl)

theorem ballots_handleInstallSnapshotResponse (r : Raft)
    (m : RaftInstallSnapshotResponseMessage) :
    Ballots r (.message (.installSnapshotResponse m)) (handleInstallSnapshotResponse m) := by
  unfold Ballots handleInstallSnapshotResponse
  rw [bind_run, fields_run]
  simp only
  rw [ite_run]
  split
  · exact .keep rfl
  rw [ite_run]
  split
  · exact .keep rfl
  rw [ite_run]
  by_cases hgt : m.term > r.term
  · rw [if_pos hgt]
    exact ballots_becomeFollower hgt
  rw [if_neg hgt]
  cases r.findPeer m.fromId with
  | none => exact .keep rfl
  | some p =>
    exact ballots_of_keep (keep_assign fun r => ballot_updatePeer r _ fun _ => rfl)

theorem keep_handleShutdown : Frame (KeepsView office) handleShutdown :=
  keep_bind (keep_assign fun _ => rfl) fun _ => keep_push rfl

theorem ballots_command (r : Raft) (i : Input) : Ballots r i (command i) := by
  cases i with
  | electionTimeout => exact ballots_electionTimeout r
  | heartbeatTimeout => exact ballots_of_keep (keep_ballot keep_heartbeatTimeout)
  | message m =>
    cases m with
    | requestVoteRequest m => exact ballots_handleRequestVoteRequest r m
    | requestVoteResponse m => exact ballots_handleRequestVoteResponse r m
    | appendEntriesRequest m => exact ballots_handleAppendEntriesRequest r m
    | appendEntriesResponse m => exact ballots_handleAppendEntriesResponse r m
    | installSnapshotRequest m => exact ballots_handleInstallSnapshotRequest r m
    | installSnapshotResponse m => exact ballots_handleInstallSnapshotResponse r m
    | kvOperationRequest m => exact ballots_of_keep (keep_ballot (keep_handleKVOperationRequest m))
    | applyCommitLogsResponse m =>
      exact ballots_of_keep (keep_ballot (keep_handleApplyCommitLogs m))
    | generateSnapshotResponse m =>
      exact ballots_of_keep (keep_ballot (keep_handleGenerateSnapshot m))
    | applySnapshotResponse m => exact ballots_of_keep (keep_ballot (keep_handleApplySnapshot m))
    | shutdown => exact ballots_of_keep (keep_ballot keep_handleShutdown)
    | _ => exact ballots_of_keep (keep_pure _)

theorem react_ballot (r : Raft) (i : Input) :
    BallotStep r i (r.react i).raft ((r.react i).pushed.filter RaftMessage.isVote) := by
  have h := ballots_command r i
  rw [react_eq]
  exact h

theorem BallotStep.term_le {r r' : Raft} {i : Input} {ms : List RaftMessage}
    (h : BallotStep r i r' ms) : r.term ≤ r'.term := by
  cases h with
  | keep hb => exact Nat.le_of_eq (congrArg Ballot.term hb).symm
  | stepDown ht hb => exact Nat.le_of_lt ht
  | stand hr => exact Nat.le_succ _
  | refuse hr =>
    subst hr
    unfold observe
    split
    next ht => exact Nat.le_of_lt ht
    next => exact Nat.le_refl _
  | @grant m ht hv hl =>
    show r.term ≤ (r.observe (-1) m.term).term
    unfold observe
    split
    next => exact ht
    next => exact Nat.le_refl _
  | count hr ht hg hc => exact Nat.le_refl _
  | elect hr ht hg hc hb => exact Nat.le_of_eq (congrArg Ballot.term hb).symm

theorem BallotStep.id_eq {r r' : Raft} {i : Input} {ms : List RaftMessage}
    (h : BallotStep r i r' ms) : r'.id = r.id := by
  cases h with
  | keep hb => exact congrArg Ballot.id hb
  | stepDown ht hb => exact congrArg Ballot.id hb
  | stand hr => rfl
  | refuse hr =>
    subst hr
    unfold observe
    split <;> rfl
  | @grant m ht hv hl =>
    show (r.observe (-1) m.term).id = r.id
    unfold observe
    split <;> rfl
  | count hr ht hg hc => rfl
  | elect hr ht hg hc hb => exact congrArg Ballot.id hb

/-- A leader at the end of a step was one before, or has just won; its term is the same. -/
theorem BallotStep.of_leader {r r' : Raft} {i : Input} {ms : List RaftMessage}
    (h : BallotStep r i r' ms) (hl : r'.role = .leader) :
    r'.term = r.term ∧
      (r.role = .leader ∨ ∃ m, i = .message (.requestVoteResponse m)) := by
  cases h with
  | keep hb =>
    exact ⟨congrArg Ballot.term hb, .inl ((congrArg Ballot.role hb).symm.trans hl)⟩
  | stepDown ht hb => exact nomatch (congrArg Ballot.role hb).symm.trans hl
  | stand hr => cases hl
  | refuse hr =>
    subst hr
    revert hl
    unfold observe
    split
    · exact nofun
    · exact fun hl => ⟨rfl, .inl hl⟩
  | @grant m ht hv hup =>
    have hl' : (r.observe (-1) m.term).role = .leader := hl
    revert hl'
    show _ → (r.observe (-1) m.term).term = r.term ∧ _
    unfold observe
    split
    · exact nofun
    · exact fun hl => ⟨rfl, .inl hl⟩
  | count hr ht hg hc => exact ⟨rfl, .inl hl⟩
  | elect hr ht hg hc hb => exact ⟨congrArg Ballot.term hb, .inr ⟨_, rfl⟩⟩

/-- A request of a term at least its own brings the node to that term. -/
theorem react_appendEntries_ballot (r : Raft) (m : RaftAppendEntriesRequestMessage)
    (h : r.term ≤ m.term) :
    (r.react (.message (.appendEntriesRequest m))).raft.ballot =
      (r.observe m.fromId m.term).ballot := by
  rw [react_eq]
  show (endScope ((handleAppendEntriesRequest m).run _)).raft.ballot = _
  unfold handleAppendEntriesRequest
  rw [bind_run, fields_run]
  simp only
  rw [ite_run, if_neg (Nat.not_lt.mpr h)]
  exact (observe_run_ballot (keep_ballot (keep_replicate m))).1

end Raft

end WWRaftKV
