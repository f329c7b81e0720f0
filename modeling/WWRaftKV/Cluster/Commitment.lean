/-
Commitment: what the nodes call committed is committed.

`CommitInv c w` adds to `LogInv` that every index a node has committed, applied or
compacted lies below a committed prefix of the world, and that a match index of a
leader counts entries its peer has confirmed.  Two more step conditions are needed:
a follower may only report what it shares with the leader, and a leader may only count
answers of its own term.
-/
import WWRaftKV.Cluster.Replication

namespace WWRaftKV

open Consensus TermLog

namespace Cluster

/-! ## Conditions on steps -/

/-- The node that accepts a request has nothing behind the entry that the request
names, or its last entry comes from the leader of the request's term. -/
def SharesLog (c : Cluster) (n : Int) : Input → Prop
  | .message (.appendEntriesRequest m) => (c.raft n).Accepts m →
    (m.prevLogIndex = (c.raft n).lastLogIndex ∧ m.prevLogTerm = (c.raft n).lastLogTerm) ∨
      (m.entries = [] ∧ (c.raft n).lastLogTerm = m.term)
  | _ => True

/-- A leader does not count an answer that was given in an earlier term. -/
def CountsOwnTerm (c : Cluster) (n : Int) : Input → Prop
  | .message (.appendEntriesResponse m) => (c.raft n).role = .leader → m.success = true →
    (c.raft n).term ≤ m.term
  | _ => True

/-- The steps that keep committed entries. -/
structure KeepsCommits (c : Cluster) (n : Int) (i : Input) : Prop where
  vote : LeaderKeepsVote c n i
  share : SharesLog c n i
  mismatch : MismatchOutside c n i
  snapshot : SnapshotsOwnEntry c n i
  count : CountsOwnTerm c n i

section Decide

variable (c : Cluster) (n : Int) (i : Input)

instance : Decidable (SharesLog c n i) := by
  induction i using Input.casesOn with
  | message m =>
    induction m using RaftMessage.casesOn <;> unfold SharesLog <;> infer_instance
  | _ => exact .isTrue trivial

instance : Decidable (CountsOwnTerm c n i) := by
  induction i using Input.casesOn with
  | message m =>
    induction m using RaftMessage.casesOn <;> unfold CountsOwnTerm <;> infer_instance
  | _ => exact .isTrue trivial

instance : Decidable (KeepsCommits c n i) :=
  decidable_of_iff (LeaderKeepsVote c n i ∧ SharesLog c n i ∧ MismatchOutside c n i ∧
    SnapshotsOwnEntry c n i ∧ CountsOwnTerm c n i)
    ⟨fun h => ⟨h.1, h.2.1, h.2.2.1, h.2.2.2.1, h.2.2.2.2⟩,
      fun h => ⟨h.vote, h.share, h.mismatch, h.snapshot, h.count⟩⟩

end Decide

theorem KeepsCommits.append {c : Cluster} {n : Int} {i : Input} (h : KeepsCommits c n i) :
    AppendsAtEnd c n i := by
  cases i with
  | message m =>
    cases m with
    | appendEntriesRequest m =>
      intro hacc hne
      exact (h.share hacc).resolve_right fun hr => hne hr.1
    | _ => trivial
  | _ => trivial

/-! ## The invariant -/

/-- The first `k` entries of the log of `n` lie below a committed prefix. -/
def SafeUpTo (ids : List Int) (w : LogWorld) (n k : Int) : Prop :=
  0 ≤ k ∧ k ≤ (w.log n).length ∧ Safe ids entryTerm w (w.term n) ((w.log n).take k.toNat)

/-- A match index `k` that `n` keeps for `p` counts confirmed or safe entries. -/
def Matched (ids : List Int) (w : LogWorld) (n p k : Int) : Prop :=
  k ≤ (w.ack p (w.term n) : Int) ∨ SafeUpTo ids w n k

/-- The end of a safe prefix, with its label. -/
def SafePoint (ids : List Int) (w : LogWorld) (t : Nat) (i : Int) (u : Nat) : Prop :=
  ∃ l, Safe ids entryTerm w t l ∧ (l.length : Int) = i ∧ Label l i u

/-- What a message in flight says about commitment. -/
def Vouched (ids : List Int) (w : LogWorld) (e : Envelope) : Prop :=
  match e.msg with
  | .appendEntriesRequest m => e.src ≠ e.dst ∧ 0 ≤ m.leaderCommit ∧
    m.leaderCommit ≤ (w.llog m.term).length ∧
      Safe ids entryTerm w m.term ((w.llog m.term).take m.leaderCommit.toNat)
  | .appendEntriesResponse m => m.success = true →
    e.src ≠ e.dst ∧ m.fromId = e.src ∧ m.lastLogIndex ≤ (w.ack e.src m.term : Int)
  | .installSnapshotRequest m => e.src ≠ e.dst ∧
    SafePoint ids w m.term m.lastIncludedIndex m.lastIncludedTerm
  | .installSnapshotResponse m => m.term ≠ 0 → e.src ≠ e.dst ∧ m.fromId = e.src
  | .applyCommitLogsRequest m => SafeUpTo ids w e.dst m.lastCommitIndex
  | .applyCommitLogsResponse m => SafeUpTo ids w e.dst m.lastCommitIndex
  | .generateSnapshotRequest m => SafeUpTo ids w e.dst m.lastAppliedIndex
  | .generateSnapshotResponse m => ¬ (m.lastAppliedIndex = -1 ∧ m.lastAppliedTerm = 0) →
    SafeUpTo ids w e.dst m.lastAppliedIndex
  | .applySnapshotRequest m => e.src ≠ e.dst ∧
    SafePoint ids w (w.term e.dst) m.lastIncludedIndex m.lastIncludedTerm
  | .applySnapshotResponse m => e.src ≠ e.dst ∧
    (¬ (m.lastIncludedIndex = -1 ∧ m.lastIncludedTerm = 0) →
      SafePoint ids w (w.term e.dst) m.lastIncludedIndex m.lastIncludedTerm)
  | _ => True

/-- The marks of a node are safe. -/
structure MarksSafe (ids : List Int) (w : LogWorld) (n : Int) (r : Raft) : Prop where
  commit : SafeUpTo ids w n r.lastCommitIndex
  applied : SafeUpTo ids w n r.lastAppliedIndex
  included : SafeUpTo ids w n r.lastIncludedIndex

/-- The match indices of a node are earned.  A node has no match index for itself. -/
structure PeersMatched (ids : List Int) (w : LogWorld) (n : Int) (r : Raft) : Prop where
  self : ∀ p ∈ r.peers, p.id = n → p.matchIndex ≤ 0
  other : r.role = .leader → ∀ p ∈ r.peers, p.id ≠ n → Matched ids w n p.id p.matchIndex

/-- What the history of the run has seen. -/
structure Seen (ids : List Int) (w : LogWorld) (s : CoreStep) : Prop where
  handed : ∀ m, RaftMessage.applyCommitLogsRequest m ∈ s.pushed →
    ∃ t l, Safe ids entryTerm w t l ∧ Raft.Handed l m
  led : s.post.role = .leader → ∃ l, s.post.Part l ∧
    Safe ids entryTerm w s.post.term (l.take s.post.lastCommitIndex.toNat)
  elected : s.BecomesLeader → w.leader s.post.term = some s.node ∧
    ∃ l, s.post.Holds l ∧ w.cand s.node s.post.term <+: l

structure CommitInv (c : Cluster) (w : LogWorld) : Prop where
  marks : ∀ n ∈ c.ids, MarksSafe c.ids w n (c.raft n)
  peers : ∀ n ∈ c.ids, PeersMatched c.ids w n (c.raft n)
  own : ∀ n ∈ c.ids, (c.raft n).role = .leader → (w.log n).length ≤ w.ack n (w.term n)
  vouched : ∀ e ∈ c.net, Vouched c.ids w e
  seen : ∀ s ∈ c.history, Seen c.ids w s

section Mono

variable {ids : List Int} {w w' : LogWorld} {n p k : Int}

theorem SafeUpTo.grows (h : SafeUpTo ids w n k) (hg : Grows w w') : SafeUpTo ids w' n k := by
  obtain ⟨h0, hk, hs⟩ := h
  obtain ⟨s, hs'⟩ := hg.log n
  refine ⟨h0, ?_, ?_⟩
  · rw [← hs', List.length_append]
    omega
  · rw [← hs', List.take_append_of_le_length (by omega)]
    exact (hs.grows hg).mono (hg.term n)

theorem Matched.grows (h : Matched ids w n p k) (hg : Grows w w') (ht : w'.term n = w.term n) :
    Matched ids w' n p k := by
  rcases h with h | h
  · have hack := hg.ack p (w.term n)
    rw [Matched, ht]
    omega
  · exact .inr (h.grows hg)

theorem SafePoint.grows {t t' : Nat} {i : Int} {u : Nat} (h : SafePoint ids w t i u)
    (hg : Grows w w') (ht : t ≤ t') : SafePoint ids w' t' i u := by
  obtain ⟨l, hs, hl, hlab⟩ := h
  exact ⟨l, (hs.grows hg).mono ht, hl, hlab⟩

theorem Vouched.grows {e : Envelope} (h : Vouched ids w e) (hg : Grows w w') :
    Vouched ids w' e := by
  unfold Vouched at *
  cases hm : e.msg with
  | appendEntriesRequest m =>
    simp only [hm] at h ⊢
    obtain ⟨hne, h0, hle, hs⟩ := h
    obtain ⟨s, hs'⟩ := hg.llog m.term
    refine ⟨hne, h0, ?_, ?_⟩
    · rw [← hs', List.length_append]
      omega
    · rw [← hs', List.take_append_of_le_length (by omega)]
      exact hs.grows hg
  | appendEntriesResponse m =>
    simp only [hm] at h ⊢
    intro hs
    obtain ⟨hne, hf, hle⟩ := h hs
    have hack := hg.ack e.src m.term
    exact ⟨hne, hf, by omega⟩
  | installSnapshotRequest m =>
    simp only [hm] at h ⊢
    exact ⟨h.1, h.2.grows hg (Nat.le_refl _)⟩
  | applyCommitLogsRequest m =>
    simp only [hm] at h ⊢
    exact h.grows hg
  | applyCommitLogsResponse m =>
    simp only [hm] at h ⊢
    exact h.grows hg
  | generateSnapshotRequest m =>
    simp only [hm] at h ⊢
    exact h.grows hg
  | generateSnapshotResponse m =>
    simp only [hm] at h ⊢
    exact fun hok => (h hok).grows hg
  | applySnapshotRequest m =>
    simp only [hm] at h ⊢
    exact ⟨h.1, h.2.grows hg (hg.term _)⟩
  | applySnapshotResponse m =>
    simp only [hm] at h ⊢
    exact ⟨h.1, fun hok => (h.2 hok).grows hg (hg.term _)⟩
  | installSnapshotResponse m =>
    simp only [hm] at h ⊢
    exact h
  | _ => trivial

theorem Seen.grows {s : CoreStep} (h : Seen ids w s) (hi : Inv ids entryTerm w)
    (hg : Grows w w') : Seen ids w' s where
  handed := fun m hm => by
    obtain ⟨t, l, hs, hl⟩ := h.handed m hm
    exact ⟨t, l, hs.grows hg, hl⟩
  led := fun hr => by
    obtain ⟨l, hp, hs⟩ := h.led hr
    exact ⟨l, hp, hs.grows hg⟩
  elected := fun hb => by
    obtain ⟨hl, l, hh, hc⟩ := h.elected hb
    refine ⟨hg.leader _ _ hl, l, hh, ?_⟩
    rw [hg.cand _ _ (hi.elected _ _ hl).2.1]
    exact hc

end Mono

theorem safeUpTo_zero (ids : List Int) (w : LogWorld) (n : Int) : SafeUpTo ids w n 0 := by
  refine ⟨Int.le_refl 0, Int.natCast_nonneg _, ?_⟩
  rw [Int.toNat_zero, List.take_zero]
  exact safe_nil

theorem commitInv_init (ids : List Int) : CommitInv (init ids) World.start where
  marks := fun n _ =>
    ⟨safeUpTo_zero ids _ n, safeUpTo_zero ids _ n, safeUpTo_zero ids _ n⟩
  peers := fun n _ => by
    refine ⟨fun p hp _ => ?_, fun hr => nomatch hr⟩
    obtain ⟨i, -, rfl⟩ := List.mem_map.mp hp
    exact Int.le_refl 0
  own := fun _ _ hr => nomatch hr
  vouched := fun _ he => absurd he List.not_mem_nil
  seen := fun _ hs => absurd hs List.not_mem_nil

theorem CommitInv.take {c : Cluster} {w : LogWorld} (h : CommitInv c w) (k : Nat) :
    CommitInv (c.take k) w where
  marks := h.marks
  peers := h.peers
  own := h.own
  vouched := fun e he => h.vouched e (mem_of_mem_take he)
  seen := h.seen

theorem CommitInv.post {c : Cluster} {w : LogWorld} (h : CommitInv c w) {e : Envelope}
    (he : Vouched c.ids w e) : CommitInv (c.post [e]) w where
  marks := h.marks
  peers := h.peers
  own := h.own
  vouched := fun x hx => by
    rcases List.mem_append.mp hx with hx | hx
    · exact h.vouched x hx
    · rw [List.mem_singleton.mp hx]
      exact he
  seen := h.seen

/-! ## The commit rule -/

section CommitRule

open Raft

variable {ids : List Int} {w : LogWorld} {n : Int} {r : Raft}

/-- Half of the leader's list, rounded up, reaches the majority match. -/
theorem countP_majorityMatch (r : Raft) :
    r.peers.length + 1 - (r.peers.length + 1) / 2 ≤
      (r.lastLogIndex :: r.peers.map (·.matchIndex)).countP
        fun x => decide (r.majorityMatch ≤ x) := by
  have h := Quorum.le_countP_middle
    (r.lastLogIndex :: r.peers.map (·.matchIndex)) (List.cons_ne_nil _ _)
  have hlen := (List.perm_insertionSort (· ≤ ·)
    (r.lastLogIndex :: r.peers.map (·.matchIndex))).length_eq
  have hv : r.majorityMatch = ((r.lastLogIndex :: r.peers.map (·.matchIndex)).insertionSort
      (· ≤ ·)).getD ((r.lastLogIndex :: r.peers.map (·.matchIndex)).length / 2) 0 := by
    unfold majorityMatch
    simp only [hlen]
  rw [← hv, List.length_cons, List.length_map] at h
  exact h

/-- The members that have confirmed up to the majority match outnumber the peers that
the leader counts by the leader itself. -/
theorem majority_confirmed {v : Int} {t : Nat} (hn : n ∈ ids)
    (hpeers : r.peers.map (·.id) = ids) (hv : 0 < v) (hmaj : v = r.majorityMatch)
    (hself : ∀ p ∈ r.peers, p.id = n → p.matchIndex ≤ 0) (hown : v ≤ (w.ack n t : Int))
    (hother : ∀ p ∈ r.peers, v ≤ p.matchIndex → v ≤ (w.ack p.id t : Int)) :
    Quorum.Majority ids fun a => decide (v.toNat ≤ w.ack a t) := by
  have hcount := countP_majorityMatch r
  rw [← hmaj, List.countP_cons, List.countP_map] at hcount
  have hlen : r.peers.length = ids.length := by rw [← hpeers, List.length_map]
  obtain ⟨q, hq, hqn⟩ : ∃ q ∈ r.peers, q.id = n := by
    rw [← hpeers] at hn
    exact List.mem_map.mp hn
  have hmore : r.peers.countP ((fun x => decide (v ≤ x)) ∘ (·.matchIndex)) + 1 ≤
      r.peers.countP fun p => decide (v.toNat ≤ w.ack p.id t) := by
    refine Quorum.countP_lt_of_new hq (fun p hp hvp => ?_) ?_ ?_
    · simp only [Function.comp, decide_eq_true_iff] at hvp ⊢
      have hle := hother p hp hvp
      omega
    · have hle := hself q hq hqn
      simp only [Function.comp, decide_eq_false_iff_not]
      omega
    · rw [hqn, decide_eq_true_iff]
      omega
  have hids : (ids.countP fun a => decide (v.toNat ≤ w.ack a t)) =
      r.peers.countP fun p => decide (v.toNat ≤ w.ack p.id t) := by
    rw [← hpeers, List.countP_map]
    rfl
  unfold Quorum.Majority
  rw [hids]
  have hone : (if decide (v ≤ r.lastLogIndex) = true then 1 else 0) ≤ 1 := by
    split <;> omega
  omega

/-- What a leader commits is safe. -/
theorem safe_majorityMatch (hi : Inv ids entryTerm w) (hn : n ∈ ids)
    (hl : w.leader (w.term n) = some n) (hown : (w.log n).length ≤ w.ack n (w.term n))
    (hh : r.Holds (w.log n)) (hpeers : r.peers.map (·.id) = ids)
    (hself : ∀ p ∈ r.peers, p.id = n → p.matchIndex ≤ 0)
    (hother : ∀ p ∈ r.peers, p.id ≠ n → Matched ids w n p.id p.matchIndex)
    (ht : r.getTermAt r.majorityMatch = some (w.term n)) :
    SafeUpTo ids w n r.majorityMatch := by
  have hpos := (hi.elected _ _ hl).1
  obtain ⟨h1, e, he, het⟩ := (hh.label_of_getTermAt ht).resolve_left (Nat.ne_of_gt hpos)
  have hlen : (r.majorityMatch - 1).toNat < (w.log n).length :=
    (List.getElem?_eq_some_iff.mp he).1
  refine ⟨by omega, by omega, ?_⟩
  by_cases hsafe : ∃ p ∈ r.peers, r.majorityMatch ≤ p.matchIndex ∧
      SafeUpTo ids w n p.matchIndex
  · obtain ⟨p, _, hle, _, _, hs⟩ := hsafe
    refine hs.of_isPrefix ((List.take_prefix_take_left (l := w.log n) ?_))
    omega
  · have htake : (w.log n).take r.majorityMatch.toNat =
        (w.log n).take (r.majorityMatch - 1).toNat ++ [e] := by
      rw [← take_succ_of_getElem? he]
      congr 1
      omega
    refine Committed.safe ⟨⟨_, e, htake, het⟩, ?_, ?_⟩
    · rw [hi.leader_log n hl]
      exact List.take_prefix _ _
    · rw [List.length_take, Nat.min_eq_left (by omega)]
      refine majority_confirmed hn hpeers (by omega) rfl hself (by omega) fun p hp hle => ?_
      have hpn : p.id ≠ n := fun hpn => by
        have hz := hself p hp hpn
        omega
      rcases hother p hp hpn with hm | hm
      · omega
      · exact absurd ⟨p, hp, hle, hm⟩ hsafe

end CommitRule

/-! ## One step of a core -/

section Act

open Raft

variable {c : Cluster} {w : LogWorld} {n caller : Int} {i : Input}

/-- Safe indices of the log after the step, in the term after the step. -/
def safeAfter (c : Cluster) (w : LogWorld) (n : Int) (i : Input) (k : Int) : Prop :=
  0 ≤ k ∧ k ≤ ((c.raft n).logAfter (w.log n) i).length ∧
    Safe c.ids entryTerm w ((c.raft n).react i).raft.term
      (((c.raft n).logAfter (w.log n) i).take k.toNat)

def peersAfter (c : Cluster) (w : LogWorld) (n : Int) (i : Input) (ρ : RaftRole)
    (ps : List RaftPeer) : Prop :=
  (∀ p ∈ ps, p.id = n → p.matchIndex ≤ 0) ∧
    (ρ = .leader → ∀ p ∈ ps, p.id ≠ n →
      p.matchIndex ≤ (w.ack p.id (c.raft n).term : Int) ∨ safeAfter c w n i p.matchIndex)

theorem safeAfter_of_safeUpTo (h : LogInv c w) (hn : n ∈ c.ids) {k : Int}
    (hs : SafeUpTo c.ids w n k) : safeAfter c w n i k := by
  obtain ⟨h0, hk, hs⟩ := hs
  have hpre : w.log n <+: (c.raft n).logAfter (w.log n) i := List.prefix_append _ _
  obtain ⟨s, hs'⟩ := hpre
  refine ⟨h0, ?_, ?_⟩
  · rw [← hs', List.length_append]
    omega
  · rw [← hs', List.take_append_of_le_length (by omega)]
    refine hs.mono ?_
    rw [h.term n hn]
    exact (react_ballot (c.raft n) i).term_le

theorem peersAfter_update {ps : List RaftPeer} {id : Int} {f : RaftPeer → RaftPeer}
    (h : peersAfter c w n i .leader ps) (hid : ∀ p, (f p).id = p.id)
    (hf : ∀ p ∈ ps, p.id = id → (f p).matchIndex = p.matchIndex ∨
      id ≠ n ∧ ((f p).matchIndex ≤ (w.ack id (c.raft n).term : Int) ∨
        safeAfter c w n i (f p).matchIndex)) :
    peersAfter c w n i .leader (updatePeer id f ps) := by
  refine ⟨fun p hp hpn => ?_, fun _ p hp hpn => ?_⟩
  · rcases mem_updatePeer hp with hp | ⟨q, hq, hqid, rfl⟩
    · exact h.1 p hp hpn
    · rw [hid] at hpn
      rcases hf q hq hqid with hsame | ⟨hne, _⟩
      · rw [hsame]
        exact h.1 q hq hpn
      · exact absurd (hqid.symm.trans hpn) hne
  · rcases mem_updatePeer hp with hp | ⟨q, hq, hqid, rfl⟩
    · exact h.2 rfl p hp hpn
    · rcases hf q hq hqid with hsame | ⟨_, hm⟩
      · rw [hsame, hid]
        rw [hid] at hpn
        exact h.2 rfl q hq hpn
      · rw [hid, hqid]
        exact hm

/-- A new leader starts from match index 0. -/
theorem peersAfter_reset {ρ : RaftRole} {ps : List RaftPeer} (hid : (c.raft n).id = n)
    (h : peersAfter c w n i ρ ps) :
    peersAfter c w n i .leader (ps.map (c.raft n).resetPeer) := by
  refine ⟨fun p hp hpn => ?_, fun _ p hp hpn => ?_⟩
  · obtain ⟨q, hq, rfl⟩ := List.mem_map.mp hp
    by_cases hqn : q.id = (c.raft n).id
    · rw [resetPeer, if_pos hqn]
      exact h.1 q hq (hqn.trans hid)
    · rw [resetPeer, if_neg hqn]
      exact Int.le_refl 0
  · obtain ⟨q, hq, rfl⟩ := List.mem_map.mp hp
    by_cases hqn : q.id = (c.raft n).id
    · rw [resetPeer, if_pos hqn] at hpn
      exact absurd (hqn.trans hid) hpn
    · rw [resetPeer, if_neg hqn]
      exact .inl (Int.natCast_nonneg _)

theorem CommitInv.peersAfter (hc : CommitInv c w) (h : LogInv c w) (hn : n ∈ c.ids) :
    peersAfter c w n i (c.raft n).role (c.raft n).peers := by
  have hp := hc.peers n hn
  refine ⟨hp.self, fun hr p hpm hpn => ?_⟩
  rcases hp.other hr p hpm hpn with hm | hm
  · rw [h.term n hn] at hm
    exact .inl hm
  · exact .inr (safeAfter_of_safeUpTo h hn hm)

/-- The log after an accepted request lies on the leader's log. -/
theorem LogInv.logAfter_isPrefix (h : LogInv c w) (hl : c.Live n)
    {m : RaftAppendEntriesRequestMessage}
    (hsent : Sent w { src := caller, dst := n, msg := .appendEntriesRequest m })
    (hs : SharesLog c n (.message (.appendEntriesRequest m))) (hacc : (c.raft n).Accepts m) :
    (c.raft n).logAfter (w.log n) (.message (.appendEntriesRequest m)) <+: w.llog m.term := by
  rw [logAfter, fresh, if_pos hacc]
  rcases hs hacc with ⟨hprev, hterm⟩ | ⟨hnil, hterm⟩
  · exact h.prefix_of_append hl hsent hprev hterm
  · rw [hnil, List.map_nil, List.append_nil]
    rw [(h.holds n hl).lastTerm] at hterm
    by_cases hlog : w.log n = []
    · rw [hlog]
      exact List.nil_prefix
    · obtain ⟨q, f, hq⟩ := exists_append_of_ne_nil hlog
      rw [hq, lastTerm_append] at hterm
      have htr := (hq ▸ h.inv.proper_log n).traced.of_last
      rw [hq]
      exact hterm ▸ htr

/-- A snapshot that ends at an entry of the node's own log is safe there. -/
theorem LogInv.safeUpTo_of_point (h : LogInv c w) (hl : c.Live n) {k : Int} {u : Nat}
    (hp : SafePoint c.ids w (w.term n) k u)
    (hk : (c.raft n).getTermAt k = some u)
    (hat : (c.raft n).lastIncludedIndex ≠ k) (hb : (c.raft n).baseIndex ≤ k)
    (hle : k ≤ (c.raft n).lastLogIndex) : SafeUpTo c.ids w n k := by
  have hh := h.holds n hl
  have hbase := hh.base
  rw [hh.lastIndex] at hle
  obtain ⟨e, hat', hel⟩ := hh.logsAt hb hle
  have hterm : e.term = u := by
    unfold getTermAt at hk
    rw [if_neg (Ne.symm hat), hh.lastIndex, if_neg (by omega), hat'] at hk
    exact Option.some.inj hk
  have hpos : 0 < u := by
    rw [← hterm]
    exact (h.inv.proper_log n).pos e.core (List.mem_of_getElem? hel)
  obtain ⟨l, hs, hlen, hlab⟩ := hp
  obtain ⟨_, f, hf, hfu⟩ := hlab.resolve_left (Nat.ne_of_gt hpos)
  have htr : Traced entryTerm w.llog l := by
    rcases hs with rfl | ⟨x, _, l', hcm, hpre⟩
    · exact traced_nil
    · exact (h.inv.proper_llog x).traced.of_isPrefix (hpre.trans hcm.written)
  have htake := (h.inv.proper_log n).traced.take_eq htr hel hf (hterm.trans hfu.symm)
  have hidx : (k - 1).toNat + 1 = k.toNat := by omega
  rw [hidx, List.take_of_length_le (l := l) (by omega)] at htake
  refine ⟨by omega, hle, ?_⟩
  rw [htake]
  exact hs

/-- The commit index a follower takes over is safe in its own log. -/
theorem CommitInv.safeAfter_leaderCommit (hc : CommitInv c w) (h : LogInv c w)
    (hl : c.Live n) {m : RaftAppendEntriesRequestMessage}
    (hsent : Sent w { src := caller, dst := n, msg := .appendEntriesRequest m })
    (hv : Vouched c.ids w { src := caller, dst := n, msg := .appendEntriesRequest m })
    (hs : SharesLog c n (.message (.appendEntriesRequest m))) (hacc : (c.raft n).Accepts m)
    (hgt : m.leaderCommit > (c.raft n).lastCommitIndex) :
    safeAfter c w n (.message (.appendEntriesRequest m)) (min m.leaderCommit
      ((c.raft n).logAfter (w.log n) (.message (.appendEntriesRequest m))).length) := by
  have hcommit := (hc.marks n hl.1).commit.1
  obtain ⟨_, h0, hle, hsafe⟩ := hv
  have hpre := h.logAfter_isPrefix hl hsent hs hacc
  refine ⟨by omega, by omega, ?_⟩
  rw [accepts_term hacc.1]
  refine hsafe.of_isPrefix ?_
  refine List.prefix_of_prefix_length_le ((List.take_prefix _ _).trans hpre)
    (List.take_prefix _ _) ?_
  rw [List.length_take, List.length_take]
  omega

theorem CommitInv.fair (hc : CommitInv c w) (h : LogInv c w) (hl : c.Live n)
    (hsent : ∀ m, i = .message m → Sent w { src := caller, dst := n, msg := m })
    (hv : ∀ m, i = .message m → Vouched c.ids w { src := caller, dst := n, msg := m })
    (hk : KeepsCommits c n i) :
    Fair (watch c w n i (safeAfter c w n i) (Cluster.peersAfter c w n i)) := by
  have hn := hl.1
  have hmarks := hc.marks n hn
  have hsafe := fun k => safeAfter_of_safeUpTo (i := i) (k := k) h hn
  have hpeers := hc.peersAfter (i := i) h hn
  have hbal := react_ballot (c.raft n) i
  constructor
  case start =>
    exact ⟨rfl, hsafe _ hmarks.commit, hsafe _ hmarks.applied, hsafe _ hmarks.included, hpeers⟩
  case follow => exact ⟨hpeers.1, nofun⟩
  case stand => exact ⟨hpeers.1, nofun⟩
  case lead =>
    intro _
    exact peersAfter_reset (h.votes.ident n hn) hpeers
  case commit =>
    rintro m rfl hacc hgt
    exact hc.safeAfter_leaderCommit h hl (hsent _ rfl) (hv _ rfl) hk.share hacc hgt
  case mismatch =>
    rintro m rfl
    exact hk.mismatch
  case answer =>
    rintro m rfl hr hle hs r1 rfl
    have hr' : (c.raft n).role = .leader := hr
    have hterm : m.term = (c.raft n).term := Nat.le_antisymm hle (hk.count hr hs)
    obtain ⟨hne, hf, hack⟩ := hv _ rfl hs
    have hupd : Cluster.peersAfter c w n (.message (.appendEntriesResponse m)) .leader
        (updatePeer m.fromId (·.setProgress m.lastLogIndex) (c.raft n).peers) := by
      refine peersAfter_update (hr' ▸ hpeers) (fun _ => rfl) fun p _ _ => .inr ⟨?_, .inl ?_⟩
      · rw [hf]
        exact hne
      · rw [hf, ← hterm]
        exact hack
    refine ⟨hupd, fun ht => hsafe _ ?_⟩
    have hwt := h.term n hn
    refine safe_majorityMatch h.inv hn ?_ (hc.own n hn hr') ?_ ?_ hupd.1 (fun p hp hpn => ?_) ?_
    · rw [hwt]
      exact h.leads n hn hr'
    · exact (h.holds n hl).congr rfl rfl rfl rfl rfl rfl
    · exact (updatePeer_ids m.fromId (f := (·.setProgress m.lastLogIndex)) (fun _ => rfl)
        (c.raft n).peers).trans (h.votes.peers n hn)
    · rcases mem_updatePeer hp with hp | ⟨q, hq, hqid, rfl⟩
      · exact (hc.peers n hn).other hr' p hp hpn
      · left
        rw [hwt, ← hterm]
        show m.lastLogIndex ≤ (w.ack q.id m.term : Int)
        rw [hqid, hf]
        exact hack
    · rw [hwt]
      exact ht
  case retry =>
    rintro m rfl hr k
    have hr' : (c.raft n).role = .leader := hr
    exact peersAfter_update (hr' ▸ hpeers) (fun _ => rfl) fun p _ _ => .inl rfl
  case installed =>
    rintro m rfl hr hterm
    have hr' : (c.raft n).role = .leader := hr
    have hpos : m.term ≠ 0 := by
      have hlead := h.leads n hn hr'
      have hp := (h.inv.elected _ _ hlead).1
      have hterm' : m.term = (c.raft n).term := hterm
      omega
    obtain ⟨hne, hf⟩ := hv _ rfl hpos
    refine peersAfter_update (hr' ▸ hpeers) (fun _ => rfl) fun p _ _ => .inr ⟨?_, .inr ?_⟩
    · rw [hf]
      exact hne
    · exact hsafe _ hmarks.included
  case applied =>
    rintro m rfl
    exact hsafe _ (hv _ rfl)
  case generated =>
    rintro m rfl hok
    exact ⟨hsafe _ (hv _ rfl hok), Label.mono (hsent _ rfl) (List.prefix_append _ _)⟩
  case received =>
    rintro m rfl hok
    obtain ⟨hget, hat⟩ := hk.snapshot hok
    refine ⟨hsafe _ ?_,
      ((h.holds n hl).label_of_getTermAt hget).mono (List.prefix_append _ _)⟩
    by_cases hinc : (c.raft n).lastIncludedIndex = m.lastIncludedIndex
    · rw [← hinc]
      exact hmarks.included
    · obtain ⟨hb, hle⟩ := hat.resolve_left fun heq => hinc heq.symm
      exact h.safeUpTo_of_point hl ((hv _ rfl).2 hok) hget hinc hb hle

/-- The world after the step: the ballot and the log have moved, and node `n` has
confirmed its log if it lies on its leader's. -/
structure Carried (c : Cluster) (w w' : LogWorld) (n : Int) (i : Input) : Prop where
  inv : Inv c.ids entryTerm w'
  grows : Grows w w'
  log : w'.log = Function.update w.log n ((c.raft n).logAfter (w.log n) i)
  term : w'.term = Function.update w.term n ((c.raft n).react i).raft.term
  leads : ((c.raft n).react i).raft.role = .leader →
    w'.leader ((c.raft n).react i).raft.term = some n
  confirmed : (c.raft n).logAfter (w.log n) i <+: w'.llog ((c.raft n).react i).raft.term →
    ((c.raft n).logAfter (w.log n) i).length ≤ w'.ack n ((c.raft n).react i).raft.term

theorem exists_ack {ids : List Int} {w : LogWorld} (h : Inv ids entryTerm w) (n : Int) :
    ∃ g, Inv ids entryTerm { w with ack := g } ∧ Grows w { w with ack := g } ∧
      (w.log n <+: w.llog (w.term n) → (w.log n).length ≤ g n (w.term n)) := by
  by_cases hp : w.log n <+: w.llog (w.term n)
  · have htake : (w.llog (w.term n)).take (w.log n).length = w.log n := by
      obtain ⟨s, hs⟩ := hp
      rw [← hs, List.take_left]
    have hstep : Consensus.Step ids entryTerm w (w.confirm n (w.log n).length) :=
      .confirm n _ hp.length_le (by rw [htake])
    refine ⟨_, h.step hstep, hstep.grows h, fun _ => ?_⟩
    rw [set_self]
    exact Nat.le_max_right _ _
  · exact ⟨w.ack, h, Grows.refl w, fun hq => absurd hq hp⟩

theorem LogInv.setAck (h : LogInv c w) {g : Int → Nat → Nat}
    (hi : Inv c.ids entryTerm { w with ack := g }) : LogInv c { w with ack := g } where
  votes := h.votes
  inv := hi
  term := h.term
  leads := h.leads
  runs := h.runs
  part := h.part
  holds := h.holds
  sent := h.sent

theorem LogInv.carry (h : LogInv c w) (hl : c.Live n) (hin : InHand c w.vote n caller i)
    (hsent : ∀ m, i = .message m → Sent w { src := caller, dst := n, msg := m })
    (hvote : LeaderKeepsVote c n i) (happ : AppendsAtEnd c n i) {safe : Int → Prop}
    {peers : RaftRole → List RaftPeer → Prop}
    (hends : Ends (watch c w n i safe peers) ((c.raft n).react i)) :
    ∃ w', LogInv (c.act n caller i) w' ∧ Carried c w w' n i := by
  obtain ⟨w1, w2, hb, hlog, h2⟩ := h.act hl hin hsent hvote happ hends
  have hterm : w2.term = Function.update w.term n ((c.raft n).react i).raft.term := by
    rw [hlog.term, hb.term]
  have hself : w2.term n = ((c.raft n).react i).raft.term := by
    rw [hterm]
    exact Function.update_self ..
  obtain ⟨g, hi, hg, hack⟩ := exists_ack hlog.inv n
  rw [hself, hlog.self] at hack
  refine ⟨{ w2 with ack := g }, h2.setAck (by rw [act_ids]; exact hi), ?_⟩
  exact {
    inv := hi
    grows := (hb.grows.trans hlog.grows).trans hg
    log := by
      show w2.log = _
      rw [hlog.log, hb.log]
    term := hterm
    leads := by
      show _ → w2.leader _ = some n
      rw [hlog.leader]
      exact hb.leads
    confirmed := hack }

section Carry

variable {w' : LogWorld}

theorem Carried.log_self (h : Carried c w w' n i) :
    w'.log n = (c.raft n).logAfter (w.log n) i := by
  rw [h.log]
  exact Function.update_self ..

theorem Carried.term_self (h : Carried c w w' n i) :
    w'.term n = ((c.raft n).react i).raft.term := by
  rw [h.term]
  exact Function.update_self ..

theorem Carried.safeUpTo (h : Carried c w w' n i) {k : Int} (hs : safeAfter c w n i k) :
    SafeUpTo c.ids w' n k := by
  obtain ⟨h0, hk, hs⟩ := hs
  unfold SafeUpTo
  rw [h.log_self, h.term_self]
  exact ⟨h0, hk, hs.grows h.grows⟩

theorem Carried.llog (h : Carried c w w' n i)
    (hr : ((c.raft n).react i).raft.role = .leader) :
    w'.llog ((c.raft n).react i).raft.term = (c.raft n).logAfter (w.log n) i := by
  have hl := h.leads hr
  rw [← h.term_self] at hl ⊢
  rw [← h.log_self]
  exact (h.inv.leader_log n hl).symm

theorem vouched_of_speaks (hcar : Carried c w w' n i) (h : LogInv c w) (hl : c.Live n)
    (hsent : ∀ m, i = .message m → Sent w { src := caller, dst := n, msg := m })
    (hv : ∀ m, i = .message m → Vouched c.ids w { src := caller, dst := n, msg := m })
    (hk : KeepsCommits c n i) {m : RaftMessage}
    (hs : Speaks (watch c w n i (safeAfter c w n i) (Cluster.peersAfter c w n i))
      ((c.raft n).react i).raft.term ((c.raft n).react i).raft.role m) {e : Envelope}
    (hr : route n caller m = some e) : Vouched c.ids w' e := by
  have hid : (c.raft n).id = n := h.votes.ident n hl.1
  cases m with
  | requestVoteRequest m => obtain rfl := Option.some.inj hr; trivial
  | requestVoteResponse m => obtain rfl := Option.some.inj hr; trivial
  | appendEntriesRequest m =>
    obtain rfl := Option.some.inj hr
    obtain ⟨hrole, hterm, hto, ⟨h0, hle, hsafe⟩, _⟩ := hs
    show n ≠ m.toId ∧ 0 ≤ m.leaderCommit ∧ m.leaderCommit ≤ (w'.llog m.term).length ∧
      Safe c.ids entryTerm w' m.term ((w'.llog m.term).take m.leaderCommit.toNat)
    rw [hterm, hcar.llog hrole]
    exact ⟨fun heq => hto (heq.symm.trans hid.symm), h0, hle, hsafe.grows hcar.grows⟩
  | appendEntriesResponse m =>
    obtain rfl := Option.some.inj hr
    intro hsucc
    obtain ⟨hterm, hlen, q, hi, hacc⟩ := hs hsucc
    obtain rfl : i = .message (.appendEntriesRequest q) := hi
    have hpre := h.logAfter_isPrefix hl (hsent _ rfl) hk.share hacc
    have hterm' := accepts_term (show (c.raft n).term ≤ q.term from hacc.1)
    have hack := hcar.confirmed (hterm' ▸ hpre.trans (hcar.grows.llog _))
    refine ⟨(hv _ rfl).1.symm, rfl, ?_⟩
    show m.lastLogIndex ≤ (w'.ack n m.term : Int)
    rw [hterm, hlen]
    exact Int.ofNat_le.mpr hack
  | installSnapshotRequest m =>
    obtain rfl := Option.some.inj hr
    obtain ⟨hrole, hterm, hto, ⟨h0, hle, hsafe⟩, hlab⟩ := hs
    refine ⟨fun heq => hto (heq.symm.trans hid.symm), ?_⟩
    show SafePoint c.ids w' m.term m.lastIncludedIndex m.lastIncludedTerm
    rw [hterm]
    refine ⟨_, hsafe.grows hcar.grows, ?_, ?_⟩
    · rw [List.length_take]
      omega
    · rcases hlab with hz | ⟨h1, x, hx, hxt⟩
      · exact .inl hz
      · refine .inr ⟨h1, x, ?_, hxt⟩
        rw [List.getElem?_take, if_pos (by omega)]
        exact hx
  | installSnapshotResponse m =>
    obtain rfl := Option.some.inj hr
    intro _
    rcases hs with ⟨q, hi⟩ | ⟨q, hi⟩
    · obtain rfl : i = .message (.installSnapshotRequest q) := hi
      exact ⟨(hv _ rfl).1.symm, rfl⟩
    · obtain rfl : i = .message (.applySnapshotResponse q) := hi
      exact ⟨(hv _ rfl).1.symm, rfl⟩
  | applyCommitLogsRequest m =>
    obtain rfl := Option.some.inj hr
    exact hcar.safeUpTo hs.1
  | generateSnapshotRequest m =>
    obtain rfl := Option.some.inj hr
    exact hcar.safeUpTo hs.1
  | applySnapshotRequest m =>
    obtain rfl := Option.some.inj hr
    obtain ⟨q, hi, hle, hidx, hterm⟩ := hs
    obtain rfl : i = .message (.installSnapshotRequest q) := hi
    obtain ⟨hne, hp⟩ := hv _ rfl
    refine ⟨hne, ?_⟩
    show SafePoint c.ids w' (w'.term n) m.lastIncludedIndex m.lastIncludedTerm
    rw [hidx, hterm, hcar.term_self]
    exact SafePoint.grows hp hcar.grows hle
  | _ => cases hr

theorem seen_of_ends (hcar : Carried c w w' n i)
    (hends : Ends (watch c w n i (safeAfter c w n i) (Cluster.peersAfter c w n i))
      ((c.raft n).react i)) :
    Seen c.ids w' {
      node := n
      pre := c.raft n
      post := ((c.raft n).react i).raft
      pushed := ((c.raft n).react i).pushed } where
  handed := fun m hm => by
    obtain ⟨⟨h0, hle, hsafe⟩, hh⟩ := hends.speaks _ hm
    refine ⟨_, _, hsafe.grows hcar.grows, fun k e he => ?_⟩
    obtain ⟨h1, hget⟩ := hh k e he
    have hk : k < m.entries.length := (List.getElem?_eq_some_iff.mp he).1
    refine ⟨h1, ?_⟩
    rw [List.getElem?_take, if_pos (by omega)]
    exact hget
  led := fun _ => ⟨_, hends.part, hends.tracks.commit.2.2.grows hcar.grows⟩
  elected := fun hb => by
    refine ⟨hcar.leads hb.2, _, hends.whole ?_, ?_⟩
    · rcases ((react_ballot (c.raft n) i).of_leader hb.2).2 with hr | ⟨m, rfl⟩
      · exact absurd hr hb.1
      · exact fun _ => nofun
    · show w'.cand n _ <+: (c.raft n).logAfter (w.log n) i
      rw [← hcar.log_self]
      exact hcar.inv.cand_log n _

theorem CommitInv.act (hc : CommitInv c w) (h : LogInv c w) (hl : c.Live n)
    (hin : InHand c w.vote n caller i)
    (hsent : ∀ m, i = .message m → Sent w { src := caller, dst := n, msg := m })
    (hv : ∀ m, i = .message m → Vouched c.ids w { src := caller, dst := n, msg := m })
    (hk : KeepsCommits c n i) :
    ∃ w', LogInv (c.act n caller i) w' ∧ CommitInv (c.act n caller i) w' ∧
      Carried c w w' n i := by
  have hends := react_log (hc.fair h hl hsent hv hk) (h.holds n hl) rfl
  obtain ⟨w', h', hcar⟩ := h.carry hl hin hsent hk.vote hk.append hends
  refine ⟨w', h', ?_, hcar⟩
  have ha := acts_act caller i hl
  have hterm : ∀ a, a ≠ n → w'.term a = w.term a := by
    intro a hne
    rw [hcar.term, Function.update_of_ne hne]
  have hlog : ∀ a, a ≠ n → w'.log a = w.log a := by
    intro a hne
    rw [hcar.log, Function.update_of_ne hne]
  constructor
  case marks =>
    rw [act_ids]
    refine act_ids c n caller i ▸ ha.forall_raft (P := fun a r => MarksSafe c.ids w' a r) ?_ ?_
    · exact ⟨hcar.safeUpTo hends.tracks.commit, hcar.safeUpTo hends.tracks.applied,
        hcar.safeUpTo hends.tracks.included⟩
    · intro a hm hne
      have hmarks := hc.marks a hm
      exact ⟨hmarks.commit.grows hcar.grows, hmarks.applied.grows hcar.grows,
        hmarks.included.grows hcar.grows⟩
  case peers =>
    rw [act_ids]
    refine act_ids c n caller i ▸ ha.forall_raft (P := fun a r => PeersMatched c.ids w' a r) ?_ ?_
    · obtain ⟨hself, hother⟩ := hends.tracks.peers
      refine ⟨hself, fun hr p hp hpn => ?_⟩
      have ht := ((react_ballot (c.raft n) i).of_leader hr).1
      rcases hother hr p hp hpn with hm | hm
      · left
        rw [hcar.term_self, ht]
        have hack := hcar.grows.ack p.id (c.raft n).term
        omega
      · exact .inr (hcar.safeUpTo hm)
    · intro a hm hne
      have hp := hc.peers a hm
      exact ⟨hp.self, fun hr p hpm hpn => (hp.other hr p hpm hpn).grows hcar.grows (hterm a hne)⟩
  case own =>
    refine ha.forall_raft (P := fun a r => r.role = .leader →
      (w'.log a).length ≤ w'.ack a (w'.term a)) ?_ ?_
    · intro hr
      rw [hcar.log_self, hcar.term_self]
      exact hcar.confirmed (by rw [hcar.llog hr])
    · intro a hm hne hr
      rw [hlog a hne, hterm a hne]
      exact Nat.le_trans (hc.own a hm hr) (hcar.grows.ack _ _)
  case vouched =>
    intro e he
    rw [act_ids]
    rcases ha.mem_net he with he | he
    · exact (hc.vouched e he).grows hcar.grows
    · obtain ⟨m, hm, hr⟩ := List.mem_filterMap.mp he
      exact vouched_of_speaks hcar h hl hsent hv hk (hends.speaks m hm) hr
  case seen =>
    intro s hs
    rw [act_ids]
    rcases ha.mem_history hs with hs | rfl
    · exact (hc.seen s hs).grows h.inv hcar.grows
    · exact seen_of_ends hcar hends

end Carry

end Act

/-! ## Runs -/

section Runs

variable {c : Cluster} {w : LogWorld} {n caller : Int} {i : Input}

theorem vouched_clerk {ids : List Int} {b : Bool} {e : Envelope} {m : RaftMessage}
    (hv : Vouched ids w e) (hm : clerkAnswer b e.msg = some m) :
    Vouched ids w { e with msg := m } := by
  cases he : e.msg with
  | applyCommitLogsRequest q =>
    rw [he] at hm
    obtain rfl := Option.some.inj hm
    simp only [Vouched, he] at hv
    exact hv
  | generateSnapshotRequest q =>
    rw [he] at hm
    obtain rfl := Option.some.inj hm
    simp only [Vouched, he] at hv
    cases b with
    | true => exact fun _ => hv
    | false => exact fun hne => absurd ⟨rfl, rfl⟩ hne
  | applySnapshotRequest q =>
    rw [he] at hm
    obtain rfl := Option.some.inj hm
    simp only [Vouched, he] at hv
    cases b with
    | true => exact ⟨hv.1, fun _ => hv.2⟩
    | false => exact ⟨hv.1, fun hne => absurd ⟨rfl, rfl⟩ hne⟩
  | _ =>
    rw [he] at hm
    cases hm

theorem vouched_default (ids : List Int) (w : LogWorld) (caller callee : Int)
    (kind : RpcKind) :
    Vouched ids w { src := callee, dst := caller, msg := kind.defaultResponse callee } := by
  cases kind with
  | requestVote => trivial
  | appendEntries => exact nofun
  | installSnapshot => exact fun hne => absurd rfl hne

theorem keepsCommits_timer (hi : ∀ m, i ≠ .message m) : KeepsCommits c n i := by
  cases i with
  | message m => exact absurd rfl (hi m)
  | _ => exact ⟨trivial, trivial, trivial, trivial, trivial⟩

theorem CommitInv.step_act (hc : CommitInv c w) (h : LogInv c w)
    (hin : InHand c w.vote n caller i)
    (hsent : ∀ m, i = .message m → Sent w { src := caller, dst := n, msg := m })
    (hv : ∀ m, i = .message m → Vouched c.ids w { src := caller, dst := n, msg := m })
    (hk : KeepsCommits c n i) :
    ∃ w', LogInv (c.act n caller i) w' ∧ CommitInv (c.act n caller i) w' := by
  by_cases hl : c.Live n
  · obtain ⟨w', h', hc', _⟩ := hc.act h hl hin hsent hv hk
    exact ⟨w', h', hc'⟩
  · rw [act_dead hl]
    exact ⟨w, h, hc⟩

theorem CommitInv.step (hc : CommitInv c w) (h : LogInv c w) {a : Action} {c' : Cluster}
    (hg : c.Obeys KeepsCommits a) (hs : c.step a = some c') :
    ∃ w', LogInv c' w' ∧ CommitInv c' w' := by
  cases moves_of_step hs with
  | timer hi =>
    exact hc.step_act h (inHand_timer hi) (fun m hm => absurd hm (hi m))
      (fun m hm => absurd hm (hi m)) (keepsCommits_timer hi)
  | client =>
    refine hc.step_act h trivial (fun m hm => ?_) (fun m hm => ?_)
      ⟨trivial, trivial, trivial, trivial, trivial⟩ <;>
    · obtain rfl := Input.message.inj hm
      trivial
  | @deliver k e hk he =>
    by_cases hl : c.Live e.dst
    · have hok := obeys_deliver hg hk he hl
      refine (hc.take k).step_act (h.take k) (h.votes.inHand hk hl.1) (fun m hm => ?_)
        (fun m hm => ?_) ⟨hok.vote, hok.share, hok.mismatch, hok.snapshot, hok.count⟩
      · obtain rfl := Input.message.inj hm
        exact h.sent e (List.mem_of_getElem? hk)
      · obtain rfl := Input.message.inj hm
        exact hc.vouched e (List.mem_of_getElem? hk)
    · rw [act_dead (take_live.not.mpr hl)]
      exact ⟨w, h.take k, hc.take k⟩
  | clerk hk hm =>
    have hmem := List.mem_of_getElem? hk
    exact ⟨w, (h.take _).post (sent_clerk (h.sent _ hmem) hm) ((h.votes.take _).clerk hm),
      (hc.take _).post (vouched_clerk (hc.vouched _ hmem) hm)⟩
  | lose => exact ⟨w, h.take _, hc.take _⟩
  | rpcFailure =>
    exact ⟨w, h.post (sent_default _ _ _) (h.votes.rpcFailure _ _ _),
      hc.post (vouched_default _ _ _ _ _)⟩

theorem Reaches.commitInv {ids : List Int} (hm : Membership ids)
    (hr : Reaches KeepsCommits ids c) : ∃ w, LogInv c w ∧ CommitInv c w := by
  obtain ⟨as, hr⟩ := hr
  refine hr.invariant (I := fun c => ∃ w, LogInv c w ∧ CommitInv c w) ?_
    ⟨_, logInv_init hm, commitInv_init ids⟩
  rintro s a t ⟨w, hw, hcw⟩ hok hs
  exact hcw.step hw hok hs

end Runs

end Cluster

/-- In this step the node hands entry `e` to its clerk for index `i`. -/
def CoreStep.HandsOver (s : CoreStep) (i : Int) (e : RaftLogEntry) : Prop :=
  (i, e) ∈ s.handed

/-- In this step a leader sets its commit index. -/
def CoreStep.Commits (s : CoreStep) : Prop :=
  s.post.role = .leader ∧ s.post.lastCommitIndex ≠ s.pre.lastCommitIndex

instance (s : CoreStep) : Decidable s.Commits := by
  unfold CoreStep.Commits
  infer_instance

namespace Cluster

/-! ## State machine safety -/

section Safety

variable {c : Cluster} {w : LogWorld} {s : CoreStep} {i : Int} {e : RaftLogEntry}

/-- What is handed to a clerk for an index is a safe entry of that index. -/
theorem CommitInv.handsOver (hc : CommitInv c w) (hs : s ∈ c.history)
    (he : s.HandsOver i e) :
    ∃ t l, Safe c.ids entryTerm w t l ∧ l[(i - 1).toNat]? = some e.core := by
  obtain ⟨x, hx, hxe⟩ := List.mem_flatMap.mp (show (i, e) ∈ handedBy s.pushed from he)
  cases x with
  | applyCommitLogsRequest m =>
    obtain ⟨k, hk, hke⟩ := List.mem_mapIdx.mp hxe
    obtain ⟨rfl, rfl⟩ := Prod.mk.inj hke
    obtain ⟨t, l, hsafe, hh⟩ := (hc.seen s hs).handed m hx
    obtain ⟨_, hl⟩ := hh k m.entries[k] (List.getElem?_eq_getElem hk)
    have hidx : m.lastCommitIndex - m.entries.length + 1 + k - 1 =
        m.lastCommitIndex - m.entries.length + k := by omega
    rw [← hidx] at hl
    exact ⟨t, l, hsafe, hl⟩
  | _ => exact absurd hxe List.not_mem_nil

/-- What a leader has committed is a safe entry of its index. -/
theorem CommitInv.committed (hc : CommitInv c w) (hs : s ∈ c.history)
    (hr : s.post.role = .leader) (hi : i ≤ s.post.lastCommitIndex)
    (he : s.post.getLogAt i = some e) :
    ∃ l, Safe c.ids entryTerm w s.post.term l ∧ 1 ≤ i ∧ l[(i - 1).toNat]? = some e.core := by
  obtain ⟨l, hpart, hsafe⟩ := (hc.seen s hs).led hr
  obtain ⟨h1, hl⟩ := hpart.getLogAt he
  refine ⟨_, hsafe, h1, ?_⟩
  have hlt : (i - 1).toNat < s.post.lastCommitIndex.toNat := by omega
  rw [List.getElem?_take, if_pos hlt]
  exact hl

end Safety

/-- No two entries are handed to state machines for one index. -/
def StateMachineSafety (c : Cluster) : Prop :=
  ∀ s ∈ c.history, ∀ t ∈ c.history, ∀ (i : Int) (e f : RaftLogEntry),
    s.HandsOver i e → t.HandsOver i f → e.core = f.core

theorem CommitInv.stateMachineSafety {c : Cluster} {w : LogWorld} (hc : CommitInv c w)
    (h : LogInv c w) : c.StateMachineSafety := by
  intro s hs t ht i e f he hf
  obtain ⟨_, l, hl, hle⟩ := hc.handsOver hs he
  obtain ⟨_, l', hl', hlf⟩ := hc.handsOver ht hf
  exact h.inv.safe_agree hl hl' hle hlf

/-- State Machine Safety, in every run whose steps keep committed entries. -/
theorem stateMachineSafety_of_keepsCommits (ids : List Int) (c : Cluster)
    (hm : Membership ids) (hr : Reaches KeepsCommits ids c) : c.StateMachineSafety := by
  obtain ⟨w, hw, hcw⟩ := hr.commitInv hm
  exact hcw.stateMachineSafety hw

/-- Node 2 confirms both writes, so the leader commits them and hands them over.  Its
next heartbeat tells node 1, which holds the first write twice. -/
def pipelinedCommit : List Action :=
  pipelinedWrites ++ [.deliver 4, .deliver 6, .heartbeatTimeout 0, .deliver 7]

theorem different_entries_handed :
    ¬ ∀ (ids : List Int) (c : Cluster), Membership ids → Reaches anyStep ids c →
      c.StateMachineSafety := by
  intro h
  obtain ⟨c, hr, hc⟩ := Reaches.of_exec anyStep [0, 1, 2]
    pipelinedCommit
    (fun c => decide (∃ s ∈ c.history, ∃ t ∈ c.history, ∃ x ∈ s.handed, ∃ y ∈ t.handed,
      x.1 = y.1 ∧ x.2.core ≠ y.2.core)) (by decide +kernel)
  obtain ⟨s, hs, t, ht, ⟨i, e⟩, he, ⟨j, f⟩, hf, hij, hne⟩ := of_decide_eq_true hc
  obtain rfl : i = j := hij
  exact hne (h [0, 1, 2] c ⟨by decide, by decide⟩ hr s hs t ht i e f he hf)

/-- A write is committed, and a heartbeat has node 1 hand it over as well. -/
def writeCommitted : List Action :=
  zeroLeads ++ [.client 0 (putRequest 'a' '1'), .deliver 3, .deliver 4, .heartbeatTimeout 0,
    .deliver 5]

theorem stateMachineSafety_three :
    ∃ c, Reaches KeepsCommits [0, 1, 2] c ∧
      (∃ s ∈ c.history, ∃ t ∈ c.history, s.node ≠ t.node ∧ s.handed ≠ [] ∧ t.handed ≠ []) ∧
      c.StateMachineSafety := by
  obtain ⟨c, hr, hc⟩ := Reaches.of_exec KeepsCommits [0, 1, 2]
    writeCommitted
    (fun c => decide (∃ s ∈ c.history, ∃ t ∈ c.history,
      s.node ≠ t.node ∧ s.handed ≠ [] ∧ t.handed ≠ [])) (by decide +kernel)
  exact ⟨c, hr, of_decide_eq_true hc,
    stateMachineSafety_of_keepsCommits [0, 1, 2] c ⟨by decide, by decide⟩ hr⟩

/-! ## Leader completeness -/

/-- What a leader holds below the commit index it sets is with every node that becomes
leader of a later term, in the vector or in the snapshot. -/
def LeaderCompleteness (c : Cluster) : Prop :=
  ∀ s ∈ c.history, s.Commits → ∀ (i : Int) (e : RaftLogEntry),
    i ≤ s.post.lastCommitIndex → s.post.getLogAt i = some e →
    ∀ t ∈ c.history, t.BecomesLeader → s.post.term < t.post.term →
      t.post.Compacted i ∨ ∃ f, t.post.getLogAt i = some f ∧ f.core = e.core

theorem CommitInv.leaderCompleteness {c : Cluster} {w : LogWorld} (hc : CommitInv c w)
    (h : LogInv c w) (hcov : CoveredInv c) : c.LeaderCompleteness := by
  intro s hs hset i e hi he t ht hlead hterm
  obtain ⟨l, hsafe, h1, hle⟩ := hc.committed hs hset.1 hi he
  obtain ⟨hw, l', hholds, hp⟩ := (hc.seen t ht).elected hlead
  have hpre : l <+: l' := (h.inv.safe_cand hsafe hterm hw).trans hp
  have hle' := getElem?_of_isPrefix hpre hle
  by_cases hcomp : t.post.Compacted i
  · exact .inl hcomp
  right
  have hlen : (i - 1).toNat < l'.length := (List.getElem?_eq_some_iff.mp hle').1
  obtain ⟨f, hf, hlf⟩ := hholds.getLogAt ((hcov.seen t ht).baseIndex_le hcomp) (by omega)
  exact ⟨f, hf, Option.some.inj (hlf.symm.trans hle')⟩

/-- Leader Completeness, in every run whose steps keep committed entries. -/
theorem leaderCompleteness_of_keepsCommits (ids : List Int) (c : Cluster)
    (hm : Membership ids) (hr : Reaches KeepsCommits ids c) : c.LeaderCompleteness := by
  obtain ⟨w, hw, hcw⟩ := hr.commitInv hm
  exact hcw.leaderCompleteness hw (hr.coveredInv fun _ _ _ h => h.snapshot)

/-- Node 1 wins term 1 and writes an entry that reaches nobody.  Node 0 wins term 2 and
writes one as well.  Node 1 puts it behind its own, reports success, and node 0 counts
that.  Then node 1 wins term 3. -/
def lateFollowerWins : List Action :=
  [.electionTimeout 1, .deliver 1, .deliver 1, .client 1 (putRequest 'x' '1'),
    .electionTimeout 0, .electionTimeout 0, .deliver 8, .deliver 8,
    .client 0 (putRequest 'e' '1'), .deliver 10, .deliver 11,
    .electionTimeout 1, .deliver 13, .deliver 13]

theorem committed_entry_lost :
    ¬ ∀ (ids : List Int) (c : Cluster), Membership ids → Reaches anyStep ids c →
      c.LeaderCompleteness := by
  intro h
  obtain ⟨c, hr, hc⟩ := Reaches.of_exec anyStep [0, 1, 2]
    lateFollowerWins
    (fun c => decide (∃ s ∈ c.history, s.Commits ∧ 1 ≤ s.post.lastCommitIndex ∧
      ∃ e ∈ s.post.getLogAt 1, ∃ t ∈ c.history, t.BecomesLeader ∧
        s.post.term < t.post.term ∧ ¬ t.post.Compacted 1 ∧
          ∀ f ∈ t.post.getLogAt 1, f.core ≠ e.core)) (by decide +kernel)
  obtain ⟨s, hs, hset, hi, e, he, t, ht, hlead, hterm, hcomp, hne⟩ := of_decide_eq_true hc
  rcases h [0, 1, 2] c ⟨by decide, by decide⟩ hr s hs hset 1 e hi he t ht hlead hterm with
    hin | ⟨f, hf, heq⟩
  · exact hcomp hin
  · exact hne f hf heq

theorem leaderCompleteness_three :
    ∃ c, Reaches KeepsCommits [0, 1, 2] c ∧
      (∃ s ∈ c.history, ∃ t ∈ c.history,
        s.Commits ∧ t.BecomesLeader ∧ s.post.term < t.post.term) ∧
      c.LeaderCompleteness := by
  obtain ⟨c, hr, hc⟩ := Reaches.of_exec KeepsCommits [0, 1, 2]
    (writeCommitted ++ [.electionTimeout 1, .deliver 9, .deliver 9])
    (fun c => decide (∃ s ∈ c.history, ∃ t ∈ c.history,
      s.Commits ∧ t.BecomesLeader ∧ s.post.term < t.post.term)) (by decide +kernel)
  exact ⟨c, hr, of_decide_eq_true hc,
    leaderCompleteness_of_keepsCommits [0, 1, 2] c ⟨by decide, by decide⟩ hr⟩

end Cluster

end WWRaftKV
