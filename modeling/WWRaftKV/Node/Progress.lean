/-
The progress indices of a node move forward.

The commit index and the snapshot point are assigned from what an answer brings, so a late
one can move them back.  The commit index of a leader rests on the match indexes that it has
stored.  An answer changes one of them, and so it leaves more than half of the nodes at the
commit index unless it takes its own peer back.  The applied index follows the hand-over: as
long as no commit is taken back, the acknowledgement is for the last index that has been
handed over.
-/
import WWRaftKV.Core.Majority
import WWRaftKV.Core.Places
import WWRaftKV.Node.HandOver

namespace WWRaftKV

open Raft

namespace Raft

/-- None of the three indices of `s` is below that of `r`. -/
structure Advances (r s : Raft) : Prop where
  commit : r.lastCommitIndex ≤ s.lastCommitIndex
  applied : r.lastAppliedIndex ≤ s.lastAppliedIndex
  included : r.lastIncludedIndex ≤ s.lastIncludedIndex

/-- The log of the node reaches the commit index, by its last index and by its vector. -/
def ReachesCommit (r : Raft) : Prop :=
  r.lastCommitIndex ≤ r.lastLogIndex ∧ r.lastCommitIndex < r.nextPlace

/-- More than half of the nodes hold the commit index, as far as the node knows. -/
def CommitHeld (r : Raft) : Prop :=
  r.peers.length / 2 < r.matchIndexes.countP fun x => decide (r.lastCommitIndex ≤ x)

/-- No entry of the node's own term lies below its commit index, and its snapshot point does
not if it is of that term. -/
structure OwnTermAhead (r : Raft) : Prop where
  logs : ∀ x ∈ r.logs.zipIdx, x.1.term = r.term → r.lastCommitIndex ≤ r.baseIndex + x.2
  point : r.lastIncludedTerm = r.term → r.lastCommitIndex ≤ r.lastIncludedIndex

/-- A request raises the commit index only where the log still reaches it. -/
def RequestInReach (r : Raft) : Input → Prop
  | .message (.appendEntriesRequest m) => r.Accepts m →
    m.leaderCommit > r.lastCommitIndex → r.ReachesCommit
  | _ => True

/-- The leader has committed nothing of its own term yet, or the commit index is held and the
answer takes no peer that holds it back below it. -/
def AnswerInReach (r : Raft) (m : RaftAppendEntriesResponseMessage) : Prop :=
  r.OwnTermAhead ∨ r.CommitHeld ∧ ∀ p ∈ r.peers, p.id = m.fromId →
    r.lastCommitIndex ≤ p.matchIndex → r.lastCommitIndex ≤ m.lastLogIndex

/-- What a leader takes from a success answer is up to date. -/
def AnswerUpToDate (r : Raft) : Input → Prop
  | .message (.appendEntriesResponse m) => r.role = .leader → m.term ≤ r.term →
    m.success = true → r.AnswerInReach m
  | _ => True

/-- The steps with up-to-date messages: no request raises the commit index of a node that
has lost committed entries, no success answer takes back a match index that the commit index
rests on, and no snapshot that has been taken or installed is older than the node's own. -/
structure KeepsProgress (r : Raft) (i : Input) : Prop where
  request : RequestInReach r i
  answer : AnswerUpToDate r i
  snapshots : ∀ x ∈ i.given, r.lastIncludedIndex ≤ x.1

section Decide

variable (r : Raft) (i : Input)

instance : Decidable r.ReachesCommit := by
  unfold ReachesCommit
  infer_instance

instance : Decidable r.CommitHeld := by
  unfold CommitHeld
  infer_instance

instance : Decidable r.OwnTermAhead :=
  decidable_of_iff ((∀ x ∈ r.logs.zipIdx, x.1.term = r.term →
      r.lastCommitIndex ≤ r.baseIndex + x.2) ∧
    (r.lastIncludedTerm = r.term → r.lastCommitIndex ≤ r.lastIncludedIndex))
    ⟨fun h => ⟨h.1, h.2⟩, fun h => ⟨h.logs, h.point⟩⟩

instance (m : RaftAppendEntriesResponseMessage) : Decidable (r.AnswerInReach m) := by
  unfold AnswerInReach
  infer_instance

instance : Decidable (RequestInReach r i) := by
  induction i using Input.casesOn with
  | message m =>
    induction m using RaftMessage.casesOn <;> unfold RequestInReach <;> infer_instance
  | _ => exact .isTrue trivial

instance : Decidable (AnswerUpToDate r i) := by
  induction i using Input.casesOn with
  | message m =>
    induction m using RaftMessage.casesOn <;> unfold AnswerUpToDate <;> infer_instance
  | _ => exact .isTrue trivial

instance : Decidable (KeepsProgress r i) :=
  decidable_of_iff (RequestInReach r i ∧ AnswerUpToDate r i ∧
    ∀ x ∈ i.given, r.lastIncludedIndex ≤ x.1)
    ⟨fun h => ⟨h.1, h.2.1, h.2.2⟩, fun h => ⟨h.request, h.answer, h.snapshots⟩⟩

end Decide

/-! ## The commit index -/

section Commit

variable {r : Raft} {i : Input} {j : Int}

theorem ReachesCommit.sync (h : r.ReachesCommit) (es : List RaftLogEntry) :
    r.lastCommitIndex ≤ (r.sync es).lastLogIndex := by
  obtain ⟨hlast, hplace⟩ := h
  unfold nextPlace at hplace
  unfold Raft.sync
  split
  · exact hlast
  · show r.lastCommitIndex ≤ r.baseIndex + ((r.logs ++ es).length : Int) - 1
    rw [List.length_append]
    omega

theorem length_updatePeer (id : Int) (f : RaftPeer → RaftPeer) (ps : List RaftPeer) :
    (updatePeer id f ps).length = ps.length := by
  induction ps with
  | nil => rfl
  | cons p ps ih =>
    rw [updatePeer]
    split
    · rfl
    · rw [List.length_cons, List.length_cons, ih]

/-- The match indexes that reach `j` do not get fewer when one peer is set to an index that
reaches `j` if the peer has done so. -/
theorem countP_setProgress {id k : Int} {ps : List RaftPeer}
    (h : ∀ p ∈ ps, p.id = id → j ≤ p.matchIndex → j ≤ k) :
    (ps.map (·.matchIndex)).countP (fun x => decide (j ≤ x)) ≤
      ((updatePeer id (·.setProgress k) ps).map (·.matchIndex)).countP
        fun x => decide (j ≤ x) := by
  induction ps with
  | nil => exact Nat.le_refl 0
  | cons p ps ih =>
    have ih := ih fun q hq => h q (List.mem_cons_of_mem p hq)
    rw [updatePeer]
    split
    next hid =>
      have hp := h p List.mem_cons_self hid
      have hset : (p.setProgress k).matchIndex = k := rfl
      rw [List.map_cons, List.map_cons, List.countP_cons, List.countP_cons, hset]
      simp only [decide_eq_true_iff]
      split
      next hle =>
        rw [if_pos (hp hle)]
      next => omega
    next =>
      rw [List.map_cons, List.map_cons, List.countP_cons, List.countP_cons]
      omega

/-- The majority match stays at the commit index or above it. -/
theorem CommitHeld.progress {m : RaftAppendEntriesResponseMessage} (h : r.CommitHeld)
    (hm : ∀ p ∈ r.peers, p.id = m.fromId → r.lastCommitIndex ≤ p.matchIndex →
      r.lastCommitIndex ≤ m.lastLogIndex) :
    r.lastCommitIndex ≤ (r.progress m).majorityMatch := by
  apply (r.progress m).majorityMatch_isGreatest_middle.2
  have hlen : (r.progress m).peers.length = r.peers.length := length_updatePeer ..
  have hcount := countP_setProgress hm
  unfold CommitHeld matchIndexes at h
  rw [List.countP_cons] at h
  show (r.progress m).peers.length / 2 + 1 ≤ _
  rw [hlen, matchIndexes, List.countP_cons]
  exact Nat.le_trans h (Nat.add_le_add_right hcount _)

/-- Where the log has the node's own term, it does not lie below the commit index. -/
theorem OwnTermAhead.le (h : r.OwnTermAhead) (hpos : 0 < r.term)
    (hj : r.getTermAt j = some r.term) : r.lastCommitIndex ≤ j := by
  unfold getTermAt at hj
  split at hj
  next hpoint =>
    rw [hpoint]
    exact h.point (Option.some.inj hj)
  next =>
    split at hj
    next =>
      have hzero := Option.some.inj hj
      omega
    next =>
      obtain ⟨e, he, hterm⟩ := Option.map_eq_some_iff.mp hj
      obtain ⟨hnonneg, hlog⟩ := logsAt_some he
      have hle := h.logs (e, (j - r.baseIndex).toNat) (List.mem_zipIdx_iff_getElem?.mpr hlog) hterm
      omega

/-- So no step moves the commit index back. -/
theorem KeepsProgress.commitsForward (h : KeepsProgress r i) (hr : r.Ranked) :
    CommitsForward r i where
  follow := by
    cases i with
    | message x =>
      cases x with
      | appendEntriesRequest m => exact fun ha hlt => (h.request ha hlt).sync m.entries
      | _ => trivial
    | _ => trivial
  confirm := by
    cases i with
    | message x =>
      cases x with
      | appendEntriesResponse m =>
        intro hl ht hs hk
        rcases h.answer hl ht hs with hahead | ⟨hheld, hm⟩
        · have hpos : 0 < r.term := hr (by rw [hl]; exact nofun)
          exact hahead.le hpos hk
        · exact hheld.progress hm
      | _ => trivial
    | _ => trivial

end Commit

section Step

variable {r s t : Raft} {i : Input} {a b : Scope}

theorem Advances.of_eq (h : r.Advances s) (hc : t.lastCommitIndex = s.lastCommitIndex)
    (ha : t.lastAppliedIndex = s.lastAppliedIndex)
    (hi : t.lastIncludedIndex = s.lastIncludedIndex) : r.Advances t where
  commit := hc ▸ h.commit
  applied := ha ▸ h.applied
  included := hi ▸ h.included

theorem Advances.of_marks (h : r.Advances s) (hm : t.marks = s.marks) : r.Advances t :=
  h.of_eq (lastCommitIndex_of_marks hm) (lastAppliedIndex_of_marks hm)
    (lastIncludedIndex_of_marks hm)

theorem Advances.change (hg : KeepsProgress r i) (hf : CommitsForward r i)
    (hack : ∀ q, i = .message (.applyCommitLogsResponse q) →
      r.lastAppliedIndex ≤ q.lastCommitIndex)
    (hc : Change r i a b) (h : r.Advances a.raft) : r.Advances b.raft := by
  cases hc with
  | turn _ r' hk => exact h.of_marks hk
  | vote _ r' hk => exact h.of_marks hk
  | sync _ m => exact h.of_eq rfl rfl rfl
  | follow _ m hi hlt ha hk =>
    subst hi
    have hcommit := lastCommitIndex_of_marks hk
    rw [sync_lastCommitIndex] at hcommit
    have hle := hf.follow ha (hcommit ▸ hlt)
    rw [← lastLogIndex_of_marks hk] at hle
    refine ⟨?_, h.applied, h.included⟩
    show r.lastCommitIndex ≤ min m.leaderCommit a.raft.lastLogIndex
    omega
  | reject _ m t =>
    exact h.of_eq (truncateAfter_lastCommitIndex _ _) (truncateAfter_lastAppliedIndex _ _)
      (truncateAfter_lastIncludedIndex _ _)
  | write m text => exact h.of_eq rfl rfl rfl
  | confirm m hi hl ht hs hk =>
    subst hi
    exact ⟨hf.confirm hl ht hs hk, h.applied, h.included⟩
  | applied m hi => exact ⟨h.commit, hack m hi, h.included⟩
  | generated m hi hok =>
    have hle := hg.snapshots (m.lastAppliedIndex, m.lastAppliedTerm)
      (by rw [hi, Input.given, RaftMessage.given, if_neg hok]; rfl)
    exact ⟨Int.le_of_eq (truncateBefore_lastCommitIndex _ r).symm,
      Int.le_of_eq (truncateBefore_lastAppliedIndex _ r).symm, hle⟩
  | installed m hi hok =>
    have hle := hg.snapshots (m.lastIncludedIndex, m.lastIncludedTerm)
      (by rw [hi, Input.given, RaftMessage.given, if_neg hok]; rfl)
    exact ⟨Int.le_of_eq (truncateBefore_lastCommitIndex _ r).symm,
      Int.le_of_eq (truncateBefore_lastAppliedIndex _ r).symm, hle⟩
  | _ => exact h.of_eq rfl rfl rfl

/-- A step keeps the indices from moving back, also when it throws. -/
theorem advances_react (hg : KeepsProgress r i) (hr : r.Ranked)
    (hack : ∀ q, i = .message (.applyCommitLogsResponse q) →
      r.lastAppliedIndex ≤ q.lastCommitIndex) : r.Advances (r.react i).raft := by
  obtain ⟨s, hs, hc, ha, hi⟩ := (react_breaks r i).progress
  have hin : r.Advances s.raft := hs.invariant (I := fun s => r.Advances s.raft)
    ⟨Int.le_refl _, Int.le_refl _, Int.le_refl _⟩ fun _ _ hc =>
      Advances.change hg (hg.commitsForward hr) hack hc
  exact hin.of_eq hc ha hi

/-! ## What has been applied has been handed over -/

/-- A change adds to what the step has done. -/
theorem Change.grows (hc : Change r i a b) : ∃ es, b.effects = a.effects ++ es := by
  cases hc with
  | turn _ r' => exact ⟨[], (List.append_nil _).symm⟩
  | follow _ m => exact ⟨[], (List.append_nil _).symm⟩
  | reject _ m t => exact ⟨[], (List.append_nil _).symm⟩
  | confirm m => exact ⟨[], (List.append_nil _).symm⟩
  | applied m => exact ⟨[], (List.append_nil _).symm⟩
  | installed m => exact ⟨[], (List.append_nil _).symm⟩
  | _ => exact ⟨_, rfl⟩

/-- Only an acknowledgement moves the applied index. -/
theorem Change.lastAppliedIndex (hc : Change r i a b) :
    b.raft.lastAppliedIndex = a.raft.lastAppliedIndex ∨
      ∃ q, i = .message (.applyCommitLogsResponse q) ∧
        b.raft.lastAppliedIndex = q.lastCommitIndex := by
  cases hc with
  | turn _ r' hk => exact .inl (lastAppliedIndex_of_marks hk)
  | vote _ r' hk => exact .inl (lastAppliedIndex_of_marks hk)
  | reject _ m t => exact .inl (truncateAfter_lastAppliedIndex _ _)
  | applied m hi => exact .inr ⟨m, hi, rfl⟩
  | generated m => exact .inl (truncateBefore_lastAppliedIndex _ r)
  | installed m => exact .inl (truncateBefore_lastAppliedIndex _ r)
  | _ => exact .inl rfl

/-- The applied index is not above `a` and what has been handed over since. -/
def AppliedWithin (a : Int) (r : Raft) (hd : List (Int × RaftLogEntry)) : Prop :=
  r.lastAppliedIndex ≤ a + hd.length

theorem AppliedWithin.react {a : Int} {hd : List (Int × RaftLogEntry)}
    (h : AppliedWithin a r hd)
    (hack : ∀ q, i = .message (.applyCommitLogsResponse q) →
      q.lastCommitIndex = a + hd.length)
    (ht : (r.react i).thrown = false) :
    AppliedWithin a (r.react i).raft (hd ++ handedBy (r.react i).pushed) := by
  have hin := (react_goes ht).invariant
    (I := fun s => AppliedWithin a s.raft (hd ++ handedBy (pushedOf s.effects))) ?_ ?_
  · exact hin
  · show AppliedWithin a r (hd ++ [])
    rw [List.append_nil]
    exact h
  · intro c d hc hcd
    obtain ⟨es, hes⟩ := hc.grows
    unfold AppliedWithin at *
    rw [List.length_append] at hcd ⊢
    rw [hes, pushedOf_append, handedBy_append, List.length_append]
    rcases hc.lastAppliedIndex with heq | ⟨q, hi, hq⟩
    · omega
    · have hend := hack q hi
      omega

end Step

end Raft

/-! ## Runs -/

section Run

variable {a : Int} {r : Raft} {rest : List RaftMessage} {hd : List (Int × RaftLogEntry)}
  {i : Input}

/-- The acknowledgement handled is for the end of what has been handed over. -/
theorem InTurn.acknowledges (h : InTurn a r (i.taken ++ rest) hd)
    {q : ApplyCommitLogsResponseMessage} (hi : i = .message (.applyCommitLogsResponse q)) :
    q.lastCommitIndex = a + hd.length := by
  subst hi
  exact (InTurn.acknowledged h).1

theorem upholds_appliedWithin (a : Int) : Upholds CommitsForward
    (fun v => InTurn a v.raft v.channel v.handed ∧
      (AppliedWithin a v.raft v.handed ∧ v.raft.Ranked)) (View.Handed a) := by
  apply (upholds_inTurn a).and
  · exact fun v ch h hp => h
  · exact fun v m h hm => h
  · exact fun v m ch h hc => h
  · exact fun v b m x ch h hc hm => h
  · intro v i ch ht h hc hg hthrown
    rw [hc] at ht
    exact ⟨h.1.react (fun q => ht.acknowledges) hthrown, h.2.react i⟩

end Run

/-- A step of the core during which no index moves back. -/
def CoreStep.MovesForward (s : CoreStep) : Prop := s.pre.Advances s.post

namespace Process

/-- What the induction over the run carries. -/
structure Forward (a : Int) (p : Process) : Prop where
  turns : p.alive = true →
    InTurn a p.raft p.channel p.handed ∧ (AppliedWithin a p.raft p.handed ∧ p.raft.Ranked)
  moves : ∀ s ∈ p.history, s.MovesForward

theorem Forward.step {a : Int} {p p' : Process} {e : Event} (h : p.Forward a)
    (hg : p.Obeys KeepsProgress e) (hs : p.step e = some p') : p'.Forward a := by
  have halive : p.alive = true := (does_of_step hs).1
  obtain ⟨hin, hle, hrank⟩ := h.turns halive
  constructor
  case turns =>
    exact ((upholds_appliedWithin a).step (I := fun v => InTurn a v.raft v.channel v.handed ∧
      (AppliedWithin a v.raft v.handed ∧ v.raft.Ranked)) h.turns
      (fun i hi => (hg i hi).commitsForward hrank) hs).1
  case moves =>
    intro s hm
    obtain hh | ⟨i, hi, hh⟩ := step_history hs
    · exact h.moves s (hh ▸ hm)
    · rw [hh] at hm
      rcases List.mem_append.mp hm with hm | hm
      · exact h.moves s hm
      · obtain rfl := List.mem_singleton.mp hm
        obtain ⟨rest, hp⟩ := turn_channel hi
        apply advances_react (hg i hi) hrank
        intro q hq
        exact Int.le_trans hle (Int.le_of_eq ((hin.perm hp).acknowledges hq).symm)

end Process

open Process

/-- The commit index, the applied index and the snapshot point of a node never move back,
in every run in which no message is out of date. -/
theorem movesForward_of_keepsProgress (id : Int) (ids : List Int)
    (file : Option RaftPersistData) (p : Process)
    (hr : Reaches (Obeys KeepsProgress) id ids file p) :
    ∀ s ∈ p.history, s.MovesForward := by
  obtain ⟨es, hr⟩ := hr
  refine (hr.invariant (I := Forward (restart id ids file).lastIncludedIndex) ?_ ?_).moves
  · exact fun s e t h hg hs => h.step hg hs
  · have hle : AppliedWithin (restart id ids file).lastIncludedIndex (restart id ids file) [] := by
      unfold AppliedWithin
      rw [(restart_marks id ids file).2]
      exact Int.le_add_of_nonneg_right (Int.le_refl 0)
    exact ⟨fun _ => ⟨inTurn_init id ids file, hle, restart_ranked id ids file⟩,
      fun s hs => absurd hs List.not_mem_nil⟩

/-- A leader commits three writes with the answers of one peer, a late answer of the other one
comes in between, and the clerk takes a snapshot. -/
def answersInOrder : List Event :=
  [.electionTimeout, .response (.requestVoteResponse { term := 1, voteGranted := true }), .handle,
    .operation { uuid := ['u'], seq := 1, opType := .put, key := ['a'], value := ['1'] }, .handle,
    .operation { uuid := ['u'], seq := 2, opType := .put, key := ['b'], value := ['2'] }, .handle,
    .operation { uuid := ['u'], seq := 3, opType := .put, key := ['c'], value := ['3'] },
    .handle] ++
  -- everything sent so far has left the channel before the answers come
  List.replicate 10 (.clerk true) ++
  [.response (.appendEntriesResponse
      { term := 1, fromId := 1, success := true, lastLogIndex := 2 }),
    .handle, .clerk true, .handle,
    .response (.appendEntriesResponse
      { term := 1, fromId := 2, success := true, lastLogIndex := 1 }),
    .handle, .clerk true, .handle,
    .response (.appendEntriesResponse
      { term := 1, fromId := 1, success := true, lastLogIndex := 3 }),
    .handle, .clerk true, .handle, .clerk true, .handle]

theorem movesForward_snapshot :
    ∃ p, Reaches (Obeys KeepsProgress) 0 [0, 1, 2] none p ∧ p.raft.lastCommitIndex = 3 ∧
      p.raft.lastIncludedIndex = 3 ∧ ∀ s ∈ p.history, s.MovesForward := by
  obtain ⟨p, hr, hp⟩ := Reaches.of_exec (Obeys KeepsProgress) 0 [0, 1, 2] none answersInOrder
    (fun p => decide (p.raft.lastCommitIndex = 3 ∧ p.raft.lastIncludedIndex = 3))
    (by decide +kernel)
  obtain ⟨hcommit, hpoint⟩ := of_decide_eq_true hp
  exact ⟨p, hr, hcommit, hpoint, movesForward_of_keepsProgress 0 [0, 1, 2] none p hr⟩

/-- The older answer of the same peer takes the commit index of the leader from 2 to 1. -/
theorem commitIndex_moves_back :
    ¬ ∀ (id : Int) (ids : List Int) (file : Option RaftPersistData) (p : Process),
      Reaches (Obeys anyInput) id ids file p → ∀ s ∈ p.history, s.MovesForward := by
  intro h
  obtain ⟨p, hr, hp⟩ := Reaches.of_exec (Obeys anyInput) 0 [0, 1, 2] none answersOvertake
    (fun p => decide (∃ s ∈ p.history, s.post.lastCommitIndex < s.pre.lastCommitIndex))
    (by decide +kernel)
  obtain ⟨s, hs, hlt⟩ := of_decide_eq_true hp
  have hle := (h 0 [0, 1, 2] none p hr s hs).commit
  omega

end WWRaftKV
