/-
Replication: the cluster moves a `World`.

`LogInv c w` ties the state of every node and every message in flight to a world `w`
of votes and logs.  One step of a core is at most two steps of the world: the ballot
moves first, then the log.  The step conditions that this needs are the ones under
which the code's log handling is sound.
-/
import WWRaftKV.General.Commit
import WWRaftKV.Core.Change
import WWRaftKV.Cluster.Election

namespace WWRaftKV

open Consensus TermLog

abbrev LogWorld := World Int RaftPersistLogEntry

abbrev entryTerm : RaftPersistLogEntry → Nat := RaftPersistLogEntry.term

namespace Cluster

/-! ## Conditions on steps -/

/-- The entries that the node accepts continue its log: the previous entry they name is
its last one. -/
def AppendsAtEnd (c : Cluster) (n : Int) : Input → Prop
  | .message (.appendEntriesRequest m) => (c.raft n).Accepts m → m.entries ≠ [] →
    m.prevLogIndex = (c.raft n).lastLogIndex ∧ m.prevLogTerm = (c.raft n).lastLogTerm
  | _ => True

/-- A mismatch at the node's own snapshot point lies outside its vector. -/
def MismatchOutside (c : Cluster) (n : Int) : Input → Prop
  | .message (.appendEntriesRequest m) => (c.raft n).term ≤ m.term →
    (c.raft n).logMatch m.prevLogIndex m.prevLogTerm = some false →
    (c.raft n).lastIncludedIndex = m.prevLogIndex →
    m.prevLogIndex < (c.raft n).baseIndex ∨ m.prevLogIndex > (c.raft n).lastLogIndex
  | _ => True

/-- A snapshot that has been installed ends at an entry which the node has, with that
term.  One that has been taken does not end in front of the vector. -/
def SnapshotsOwnEntry (c : Cluster) (n : Int) : Input → Prop
  | .message (.applySnapshotResponse m) =>
    ¬ (m.lastIncludedIndex = -1 ∧ m.lastIncludedTerm = 0) →
      (c.raft n).getTermAt m.lastIncludedIndex = some m.lastIncludedTerm ∧
        (m.lastIncludedIndex = (c.raft n).lastIncludedIndex ∨
          (c.raft n).baseIndex ≤ m.lastIncludedIndex ∧
            m.lastIncludedIndex ≤ (c.raft n).lastLogIndex)
  | .message (.generateSnapshotResponse m) =>
    ¬ (m.lastAppliedIndex = -1 ∧ m.lastAppliedTerm = 0) →
      (c.raft n).baseIndex ≤ m.lastAppliedIndex + 1
  | _ => True

/-- The steps that keep the logs of all nodes matching. -/
structure KeepsLogs (c : Cluster) (n : Int) (i : Input) : Prop where
  vote : LeaderKeepsVote c n i
  append : AppendsAtEnd c n i
  mismatch : MismatchOutside c n i
  snapshot : SnapshotsOwnEntry c n i

section Decide

variable (c : Cluster) (n : Int) (i : Input)

instance : Decidable (AppendsAtEnd c n i) := by
  induction i using Input.casesOn with
  | message m =>
    induction m using RaftMessage.casesOn <;> unfold AppendsAtEnd <;> infer_instance
  | _ => exact .isTrue trivial

instance : Decidable (MismatchOutside c n i) := by
  induction i using Input.casesOn with
  | message m =>
    induction m using RaftMessage.casesOn <;> unfold MismatchOutside <;> infer_instance
  | _ => exact .isTrue trivial

instance : Decidable (SnapshotsOwnEntry c n i) := by
  induction i using Input.casesOn with
  | message m =>
    induction m using RaftMessage.casesOn <;> unfold SnapshotsOwnEntry <;> infer_instance
  | _ => exact .isTrue trivial

instance : Decidable (KeepsLogs c n i) :=
  decidable_of_iff (LeaderKeepsVote c n i ∧ AppendsAtEnd c n i ∧ MismatchOutside c n i ∧
    SnapshotsOwnEntry c n i) ⟨fun h => ⟨h.1, h.2.1, h.2.2.1, h.2.2.2⟩,
    fun h => ⟨h.vote, h.append, h.mismatch, h.snapshot⟩⟩

end Decide

/-! ## The invariant -/

/-- What a message in flight says about the world. -/
def Sent (w : LogWorld) (e : Envelope) : Prop :=
  match e.msg with
  | .requestVoteRequest m => w.vote e.src m.term = some e.src ∧
    m.lastLogIndex = (w.cand e.src m.term).length ∧
      m.lastLogTerm = lastTerm entryTerm (w.cand e.src m.term)
  | .appendEntriesRequest m => w.leader m.term = some e.src ∧ 0 ≤ m.prevLogIndex ∧
    m.entries.map RaftLogEntry.core <+: (w.llog m.term).drop m.prevLogIndex.toNat ∧
      Label (w.llog m.term) m.prevLogIndex m.prevLogTerm
  | .generateSnapshotRequest m => Label (w.log e.dst) m.lastAppliedIndex m.lastAppliedTerm
  | .generateSnapshotResponse m => Label (w.log e.dst) m.lastAppliedIndex m.lastAppliedTerm
  | _ => True

structure LogInv (c : Cluster) (w : LogWorld) : Prop where
  votes : VoteInv c w.vote
  inv : Inv c.ids entryTerm w
  term : ∀ n ∈ c.ids, w.term n = (c.raft n).term
  leads : ∀ n ∈ c.ids, (c.raft n).role = .leader → w.leader (c.raft n).term = some n
  runs : ∀ n ∈ c.ids, (c.raft n).role = .candidate → w.leader (c.raft n).term ≠ some n
  part : ∀ n ∈ c.ids, (c.raft n).Part (w.log n)
  holds : ∀ n, c.Live n → (c.raft n).Holds (w.log n)
  sent : ∀ e ∈ c.net, Sent w e

theorem logInv_init {ids : List Int} (h : Membership ids) :
    LogInv (init ids) World.start where
  votes := voteInv_init h
  inv := inv_start
  term := fun _ _ => rfl
  leads := fun _ _ hr => nomatch hr
  runs := fun _ _ hr => nomatch hr
  part := fun n _ => (Raft.holds_make n ids).part
  holds := fun n _ => Raft.holds_make n ids
  sent := nofun

theorem Sent.grows {w w' : LogWorld} {ids : List Int} {e : Envelope} (h : Sent w e)
    (hi : Inv ids entryTerm w) (hg : Grows w w') : Sent w' e := by
  unfold Sent at *
  cases hm : e.msg with
  | requestVoteRequest m =>
    simp only [hm] at h ⊢
    obtain ⟨hv, hlen, hterm⟩ := h
    have hcand := hg.cand e.src m.term (hi.voter _ _ _ hv)
    rw [hcand]
    exact ⟨hg.vote _ _ _ hv, hlen, hterm⟩
  | appendEntriesRequest m =>
    simp only [hm] at h ⊢
    obtain ⟨hl, hp, he, hlab⟩ := h
    exact ⟨hg.leader _ _ hl, hp, he.trans ((hg.llog _).drop _), hlab.mono (hg.llog _)⟩
  | generateSnapshotRequest m =>
    simp only [hm] at h ⊢
    exact h.mono (hg.log _)
  | generateSnapshotResponse m =>
    simp only [hm] at h ⊢
    exact h.mono (hg.log _)
  | _ => trivial

/-- The state before a step, without a message that has left the bag. -/
theorem LogInv.take {c : Cluster} {w : LogWorld} (h : LogInv c w) (k : Nat) :
    LogInv (c.take k) w where
  votes := h.votes.take k
  inv := h.inv
  term := h.term
  leads := h.leads
  runs := h.runs
  part := h.part
  holds := h.holds
  sent := fun e he => h.sent e (mem_of_mem_take he)

/-! ## The ballot moves -/

section Ballot

open Raft

variable {c : Cluster} {w w' : LogWorld} {n caller : Int} {i : Input} {r' : Raft}
  {ms : List RaftMessage}

/-- The world after the ballot of node `n` has come to that of `r'`. -/
structure Balloted (ids : List Int) (w w' : LogWorld) (n : Int) (r' : Raft)
    (ms : List RaftMessage) : Prop where
  inv : Inv ids entryTerm w'
  grows : Grows w w'
  vote : w'.vote = recordVote w.vote n r'
  term : w'.term = Function.update w.term n r'.term
  log : w'.log = w.log
  ack : w'.ack = w.ack
  leads : r'.role = .leader → w'.leader r'.term = some n
  runs : r'.role = .candidate → w'.leader r'.term ≠ some n
  leader : ∀ t m, w'.leader t = some m → w.leader t = some m ∨ m = n
  requests : ∀ m, RaftMessage.requestVoteRequest m ∈ ms → w'.vote n m.term = some n ∧
    m.lastLogIndex = (w'.cand n m.term).length ∧
      m.lastLogTerm = lastTerm entryTerm (w'.cand n m.term)

theorem recordVote_known {v : Int → Nat → Option Int} {r : Raft}
    (h : r.votedFor ≠ -1 → v n r.term = some r.votedFor) : recordVote v n r = v := by
  funext a t
  unfold recordVote
  split
  next hr =>
    obtain ⟨rfl, rfl, hv⟩ := hr
    exact (h hv).symm
  next => rfl

theorem LogInv.balloted_same (h : LogInv c w) (hn : n ∈ c.ids)
    (ht : r'.term = (c.raft n).term) (hr : r'.role = (c.raft n).role)
    (hv : r'.votedFor = (c.raft n).votedFor) (hms : ∀ m, RaftMessage.requestVoteRequest m ∉ ms) :
    Balloted c.ids w w n r' ms where
  inv := h.inv
  grows := Grows.refl w
  vote := by
    refine (recordVote_known fun hne => ?_).symm
    rw [hv] at hne ⊢
    rw [ht]
    exact h.votes.voted hn hne
  term := by rw [ht, ← h.term n hn, Function.update_eq_self]
  log := rfl
  ack := rfl
  leads := fun hl => by
    rw [ht]
    exact h.leads n hn (hr.symm.trans hl)
  runs := fun hl => by
    rw [ht]
    exact h.runs n hn (hr.symm.trans hl)
  leader := fun _ _ hl => .inl hl
  requests := fun m hm => absurd hm (hms m)

theorem LogInv.balloted_observe (h : LogInv c w) (hn : n ∈ c.ids)
    (ht : (c.raft n).term ≤ r'.term) (hr : r'.role = .follower) (hv : r'.votedFor = -1)
    (hms : ∀ m, RaftMessage.requestVoteRequest m ∉ ms) :
    Balloted c.ids w (w.observe n r'.term) n r' ms := by
  have hle : w.term n ≤ r'.term := by
    rw [h.term n hn]
    exact ht
  have hstep : Consensus.Step c.ids entryTerm w (w.observe n r'.term) := .observe n _ hle
  exact {
    inv := h.inv.step hstep
    grows := hstep.grows h.inv
    vote := (recordVote_of_none hv).symm
    term := rfl
    log := rfl
    ack := rfl
    leads := fun hl => nomatch hr.symm.trans hl
    runs := fun hl => nomatch hr.symm.trans hl
    leader := fun _ _ hl => .inl hl
    requests := fun m hm => absurd hm (hms m) }

theorem LogInv.balloted_stand (h : LogInv c w) (hl : c.Live n) :
    Balloted c.ids w (w.stand n) n (c.raft n).toCandidate
      (c.raft n).toCandidate.voteRequests := by
  have hstep : Consensus.Step c.ids entryTerm w (w.stand n) := .stand n
  have hterm : w.term n + 1 = (c.raft n).term + 1 := congrArg (· + 1) (h.term n hl.1)
  have hid : (c.raft n).id = n := h.votes.ident n hl.1
  have hne : n ≠ -1 := fun hne => h.votes.members.valid (hne ▸ hl.1)
  have hvote : (w.stand n).vote = recordVote w.vote n (c.raft n).toCandidate := by
    funext a t
    show World.set w.vote n (w.term n + 1) (some n) a t = _
    unfold recordVote World.set
    rw [toCandidate_term, toCandidate_votedFor, hid, hterm]
    by_cases ha : a = n ∧ t = (c.raft n).term + 1
    · rw [if_pos ha, if_pos ⟨ha.1, ha.2, hne⟩]
    · rw [if_neg ha, if_neg fun hx => ha ⟨hx.1, hx.2.1⟩]
  exact {
    inv := h.inv.step hstep
    grows := hstep.grows h.inv
    vote := hvote
    term := by
      show Function.update w.term n (w.term n + 1) = _
      rw [hterm]
      rfl
    log := rfl
    ack := rfl
    leads := fun hr => nomatch hr
    runs := fun _ => by
      show w.leader ((c.raft n).term + 1) ≠ some n
      rw [← hterm]
      exact h.inv.unelected (Nat.lt_succ_self _)
    leader := fun _ _ hx => .inl hx
    requests := fun m hm => by
      obtain ⟨p, -, hp⟩ := List.mem_map.mp hm
      obtain rfl := RaftMessage.requestVoteRequest.inj hp
      have hholds := h.holds n hl
      show World.set w.vote n (w.term n + 1) (some n) n ((c.raft n).term + 1) = some n ∧
        (c.raft n).lastLogIndex =
          (World.set w.cand n (w.term n + 1) (w.log n) n ((c.raft n).term + 1)).length ∧
        (c.raft n).lastLogTerm = lastTerm entryTerm
          (World.set w.cand n (w.term n + 1) (w.log n) n ((c.raft n).term + 1))
      rw [hterm, set_self, set_self]
      exact ⟨rfl, hholds.lastIndex, hholds.lastTerm⟩ }

theorem upToDate_of_logUpToDate {r : Raft} {l q : CoreLog} (h : r.Holds l)
    (hup : r.logUpToDate q.length (lastTerm entryTerm q) = true) : UpToDate entryTerm q l := by
  have hi := h.lastIndex
  have ht := h.lastTerm
  unfold logUpToDate at hup
  unfold UpToDate
  split at hup
  · have hlt := of_decide_eq_true hup
    left
    rw [← ht]
    exact hlt
  next heq =>
    have hle := of_decide_eq_true hup
    right
    refine ⟨?_, by omega⟩
    rw [← ht]
    exact (not_not.mp heq).symm

theorem LogInv.balloted_grant (h : LogInv c w) (hl : c.Live n)
    {m : RaftRequestVoteRequestMessage}
    (hin : InHand c w.vote n caller (.message (.requestVoteRequest m)))
    (hsent : Sent w { src := caller, dst := n, msg := .requestVoteRequest m })
    (hlead : (c.raft n).role = .leader → m.term ≠ (c.raft n).term)
    (ht : (c.raft n).term ≤ m.term)
    (hv : ((c.raft n).observe (-1) m.term).votedFor = -1 ∨
      ((c.raft n).observe (-1) m.term).votedFor = m.fromId)
    (hup : (c.raft n).logUpToDate m.lastLogIndex m.lastLogTerm = true)
    (hms : ∀ m, RaftMessage.requestVoteRequest m ∉ ms) :
    Balloted c.ids w (w.grant n caller m.term) n
      (((c.raft n).observe (-1) m.term).setVotedFor m.fromId) ms := by
  have hnone := h.votes.unvoted_of_grant hl.1 hin hlead ht hv
  obtain ⟨hcaller, hfrom, _, _, _⟩ := hin
  obtain ⟨hself, hlen, hterm⟩ := hsent
  rw [hlen, hterm] at hup
  have hle : w.term n ≤ m.term := by
    rw [h.term n hl.1]
    exact ht
  have hstep : Consensus.Step c.ids entryTerm w (w.grant n caller m.term) :=
    .grant n caller m.term hle hnone hself (upToDate_of_logUpToDate (h.holds n hl) hup)
  have hcne : caller ≠ -1 := fun hc => h.votes.members.valid (hc ▸ hcaller)
  have hrt : ((c.raft n).observe (-1) m.term).term = m.term := by
    unfold observe
    split
    · rfl
    · omega
  have hrole : ((c.raft n).observe (-1) m.term).role = .follower ∨
      m.term = (c.raft n).term ∧
        ((c.raft n).observe (-1) m.term).role = (c.raft n).role := by
    unfold observe
    split
    · exact .inl rfl
    · exact .inr ⟨by omega, rfl⟩
  exact {
    inv := h.inv.step hstep
    grows := hstep.grows h.inv
    vote := by
      funext a t
      show World.set w.vote n m.term (some caller) a t = _
      unfold recordVote World.set
      rw [setVotedFor_term, setVotedFor_votedFor, hrt, hfrom]
      by_cases ha : a = n ∧ t = m.term
      · rw [if_pos ha, if_pos ⟨ha.1, ha.2, hcne⟩]
      · rw [if_neg ha, if_neg fun hx => ha ⟨hx.1, hx.2.1⟩]
    term := by
      show Function.update w.term n m.term = Function.update w.term n _
      rw [setVotedFor_term, hrt]
    log := rfl
    ack := rfl
    leads := fun hr => by
      rcases hrole with hf | ⟨heq, hsame⟩
      · exact nomatch hf.symm.trans hr
      · exact absurd heq (hlead (hsame.symm.trans hr))
    runs := fun hr => by
      rcases hrole with hf | ⟨heq, hsame⟩
      · exact nomatch hf.symm.trans hr
      · show w.leader _ ≠ some n
        rw [setVotedFor_term, hrt, heq]
        exact h.runs n hl.1 (hsame.symm.trans hr)
    leader := fun _ _ hx => .inl hx
    requests := fun m hm => absurd hm (hms m) }

theorem LogInv.balloted_elect (h : LogInv c w) (hn : n ∈ c.ids)
    (hr : (c.raft n).role = .candidate)
    (hq : Quorum.Majority c.ids fun a => w.vote a (c.raft n).term == some n)
    (hb : r'.ballot =
      { (c.raft n).ballot with role := .leader, votedFor := -1, voteCount := 0 }) :
    Balloted c.ids w (w.elect n) n r' [] := by
  have hterm : r'.term = (c.raft n).term := congrArg Ballot.term hb
  have hrole : r'.role = .leader := congrArg Ballot.role hb
  have hwt : w.term n = (c.raft n).term := h.term n hn
  have hself : (c.raft n).votedFor = n := h.votes.runs n hn hr
  have hvoted := h.votes.voted hn (by
    rw [hself]
    exact fun hne => h.votes.members.valid (hne ▸ hn))
  have hnone : w.leader (w.term n) = none := by
    cases hl : w.leader (w.term n) with
    | none => rfl
    | some m =>
      rw [hwt] at hl
      rw [h.inv.winner_unique hl hq] at hl
      exact absurd hl (h.runs n hn hr)
  have hstep : Consensus.Step c.ids entryTerm w (w.elect n) := by
    refine .elect n ?_ hnone ?_
    · rw [hwt]
      exact h.inv.vote_pos _ _ _ hvoted
    · rw [hwt]
      exact hq
  exact {
    inv := h.inv.step hstep
    grows := hstep.grows h.inv
    vote := (recordVote_of_none (congrArg Ballot.votedFor hb)).symm
    term := by
      rw [hterm, ← hwt]
      exact (Function.update_eq_self n w.term).symm
    log := rfl
    ack := rfl
    leads := fun _ => by
      show Function.update w.leader (w.term n) (some n) r'.term = some n
      rw [hterm, hwt, Function.update_self]
    runs := fun hc => nomatch hrole.symm.trans hc
    leader := fun t m hl => by
      revert hl
      exact update_ind (P := fun x => x = some m → w.leader t = some m ∨ m = n) t .inl
        fun _ hx => .inr (Option.some.inj hx).symm
    requests := fun _ hm => nomatch hm }

theorem LogInv.balloted (h : LogInv c w) (hl : c.Live n) (hin : InHand c w.vote n caller i)
    (hsent : ∀ m, i = .message m → Sent w { src := caller, dst := n, msg := m })
    (hg : LeaderKeepsVote c n i) (hb : BallotStep (c.raft n) i r' ms) :
    ∃ w', Balloted c.ids w w' n r' ms := by
  have hnone : ∀ (m : RaftRequestVoteRequestMessage) (q : RaftRequestVoteResponseMessage),
      RaftMessage.requestVoteRequest m ∉ [RaftMessage.requestVoteResponse q] :=
    fun m q hm => nomatch List.mem_singleton.mp hm
  have hcasts := h.votes.casts hl.1 hin hg hb
  cases hb with
  | keep hb =>
    exact ⟨w, h.balloted_same hl.1 (congrArg Ballot.term hb) (congrArg Ballot.role hb)
      (congrArg Ballot.votedFor hb) fun _ => nofun⟩
  | stepDown ht hb =>
    exact ⟨_, h.balloted_observe hl.1 (Nat.le_of_lt ht) (congrArg Ballot.role hb)
      (congrArg Ballot.votedFor hb) fun _ => nofun⟩
  | stand hr => exact ⟨_, h.balloted_stand hl⟩
  | @refuse m _ hr =>
    by_cases ht : m.term > (c.raft n).term
    · rw [observe_gt ht] at hr
      exact ⟨_, h.balloted_observe hl.1 (by rw [hr]; exact Nat.le_of_lt ht) (by rw [hr]; rfl)
        (by rw [hr]; rfl) fun _ => hnone _ _⟩
    · rw [observe_le ht] at hr
      exact ⟨w, h.balloted_same hl.1 (by rw [hr]) (by rw [hr]) (by rw [hr])
        fun _ => hnone _ _⟩
  | grant ht hv hup =>
    refine ⟨_, h.balloted_grant hl hin (hsent _ rfl) (fun hr hmt => ?_) ht hv hup
      fun _ => hnone _ _⟩
    rw [hg hr hmt] at hup
    cases hup
  | count hr ht hgr hc => exact ⟨w, h.balloted_same hl.1 rfl rfl rfl fun _ => nofun⟩
  | elect hr ht hgr hc hb =>
    have hterm : r'.term = (c.raft n).term := congrArg Ballot.term hb
    have hq := hcasts.elected (by rw [hr]; exact nofun) (congrArg Ballot.role hb)
    rw [hterm] at hq
    exact ⟨_, h.balloted_elect hl.1 hr hq hb⟩

end Ballot

/-! ## The log moves -/

section Logs

open Raft

variable {c : Cluster} {w w' w'' : LogWorld} {n caller : Int} {i : Input} {r' : Raft}
  {ms : List RaftMessage}

/-- The world after the log of node `n` has taken in the entries of the input `i`. -/
structure Logged (ids : List Int) (w w' : LogWorld) (n : Int) (l : CoreLog) : Prop where
  inv : Inv ids entryTerm w'
  grows : Grows w w'
  vote : w'.vote = w.vote
  term : w'.term = w.term
  cand : w'.cand = w.cand
  leader : w'.leader = w.leader
  ack : w'.ack = w.ack
  log : w'.log = Function.update w.log n l

theorem logged_same {ids : List Int} (h : Inv ids entryTerm w) {l : CoreLog}
    (hl : l = w.log n) : Logged ids w w n l where
  inv := h
  grows := Grows.refl w
  vote := rfl
  term := rfl
  cand := rfl
  leader := rfl
  ack := rfl
  log := by rw [hl, Function.update_eq_self]

theorem logged_append {ids : List Int} (h : Inv ids entryTerm w) {e : RaftPersistLogEntry}
    (hl : w.leader (w.term n) = some n) (he : e.term = w.term n) :
    Logged ids w (w.append n e) n (w.log n ++ [e]) := by
  have hstep : Consensus.Step ids entryTerm w (w.append n e) := .append n e hl he
  exact {
    inv := h.step hstep
    grows := hstep.grows h
    vote := rfl
    term := rfl
    cand := rfl
    leader := rfl
    ack := rfl
    log := rfl }

theorem logged_extend {ids : List Int} (h : Inv ids entryTerm w) {l : CoreLog}
    (hg : w.log n <+: l) (hl : l <+: w.llog (w.term n)) :
    Logged ids w (w.extend n l) n l := by
  have hstep : Consensus.Step ids entryTerm w (w.extend n l) := .extend n l hg hl
  exact {
    inv := h.step hstep
    grows := hstep.grows h
    vote := rfl
    term := rfl
    cand := rfl
    leader := rfl
    ack := rfl
    log := rfl }

theorem prefix_append_of_drop {ε : Type} {l L es : List ε} (hl : l <+: L)
    (he : es <+: L.drop l.length) : l ++ es <+: L := by
  obtain ⟨s, rfl⟩ := hl
  rw [List.drop_left] at he
  exact (List.prefix_append_right_inj l).mpr he

/-- A log whose last entry is named correctly for the leader's log lies on it. -/
theorem prefix_of_label {ids : List Int} (h : Inv ids entryTerm w) {t : Nat}
    (hlab : Label (w.llog t) (w.log n).length (lastTerm entryTerm (w.log n))) :
    w.log n <+: w.llog t := by
  by_cases hnil : w.log n = []
  · rw [hnil]
    exact List.nil_prefix
  · obtain ⟨q, f, hq⟩ := exists_append_of_ne_nil hnil
    have hpos := (h.proper_log n).pos f (by rw [hq]; simp)
    rw [hq, lastTerm_append] at hlab
    rcases hlab with hz | ⟨_, e, he, het⟩
    · exact absurd hz (Nat.ne_of_gt hpos)
    · have hidx : (((q ++ [f]).length : Int) - 1).toNat = q.length := by
        rw [List.length_append, List.length_singleton]
        omega
      rw [hidx] at he
      have hf : (w.log n)[q.length]? = some f := by
        rw [hq, List.getElem?_append_right (Nat.le_refl _), Nat.sub_self]
        rfl
      have htake := (h.proper_log n).traced.take_eq (h.proper_llog t).traced hf he het.symm
      have hall : (w.log n).take (q.length + 1) = w.log n := by
        refine List.take_of_length_le ?_
        rw [hq, List.length_append]
        exact Nat.le_refl _
      rw [hall] at htake
      rw [htake]
      exact List.take_prefix _ _

/-- Accepted entries that continue the log of the node bring it up to the leader's. -/
theorem LogInv.prefix_of_append (h : LogInv c w) (hl : c.Live n)
    {m : RaftAppendEntriesRequestMessage}
    (hsent : Sent w { src := caller, dst := n, msg := .appendEntriesRequest m })
    (hprev : m.prevLogIndex = (c.raft n).lastLogIndex)
    (hterm : m.prevLogTerm = (c.raft n).lastLogTerm) :
    w.log n ++ m.entries.map RaftLogEntry.core <+: w.llog m.term := by
  have hh := h.holds n hl
  obtain ⟨_, _, hes, hlab⟩ := hsent
  rw [hprev, hterm, hh.lastIndex, hh.lastTerm] at hlab
  rw [hprev, hh.lastIndex, Int.toNat_natCast] at hes
  exact prefix_append_of_drop (prefix_of_label h.inv hlab) hes

theorem accepts_term {r : Raft} {m : RaftAppendEntriesRequestMessage} (h : r.term ≤ m.term) :
    (r.react (.message (.appendEntriesRequest m))).raft.term = m.term := by
  have hb := congrArg Ballot.term (react_appendEntries_ballot r m h)
  refine hb.trans ?_
  show (r.observe m.fromId m.term).term = m.term
  unfold observe
  split
  · rfl
  · omega

/-- The second half of a step: the log follows what `fresh` says. -/
theorem LogInv.logged (h : LogInv c w) (hl : c.Live n)
    (hsent : ∀ m, i = .message m → Sent w { src := caller, dst := n, msg := m })
    (hg : AppendsAtEnd c n i)
    (hb : Balloted c.ids w w' n ((c.raft n).react i).raft ms) :
    ∃ w'', Logged c.ids w' w'' n ((c.raft n).logAfter (w.log n) i) := by
  have hlog : w'.log n = w.log n := congrFun hb.log n
  have hterm : w'.term n = ((c.raft n).react i).raft.term := by
    rw [hb.term]
    exact Function.update_self ..
  by_cases hnil : (c.raft n).fresh i = []
  · refine ⟨w', logged_same hb.inv ?_⟩
    rw [logAfter, hnil, List.map_nil, List.append_nil, hlog]
  cases i with
  | electionTimeout => exact absurd rfl hnil
  | heartbeatTimeout => exact absurd rfl hnil
  | message m =>
    cases m with
    | appendEntriesRequest m =>
      simp only [fresh] at hnil
      split at hnil
      next hacc =>
        obtain ⟨hprev, hpt⟩ := hg hacc hnil
        have hpre := h.prefix_of_append hl (hsent _ rfl) hprev hpt
        refine ⟨_, logged_extend hb.inv (l := (c.raft n).logAfter (w.log n) _) ?_ ?_⟩
        · rw [hlog]
          exact List.prefix_append _ _
        · rw [hterm, accepts_term hacc.1, logAfter, fresh, if_pos hacc]
          exact hpre.trans (hb.grows.llog _)
      next => exact absurd rfl hnil
    | kvOperationRequest m =>
      simp only [fresh] at hnil
      split at hnil
      next hlead =>
        cases hce : (c.raft n).clientEntry m with
        | none =>
          rw [hce] at hnil
          exact absurd rfl hnil
        | some e =>
          obtain ⟨command, -, rfl⟩ := Option.map_eq_some_iff.mp hce
          have hbal : ((c.raft n).react (.message (.kvOperationRequest m))).raft.ballot =
              (c.raft n).ballot := by
            obtain ⟨hk, -⟩ := keep_ballot (keep_handleKVOperationRequest m)
              { raft := c.raft n, effects := [] }
            rw [react_eq]
            exact hk
          have hrt := congrArg Ballot.term hbal
          have hrole := (congrArg Ballot.role hbal).trans hlead
          have hlw := hb.leads hrole
          rw [← hterm] at hlw
          have happ := logged_append (e := { term := (c.raft n).term, command := command })
            hb.inv hlw ((show (c.raft n).term = _ from hrt.symm).trans hterm.symm)
          rw [hlog] at happ
          have hafter : (c.raft n).logAfter (w.log n) (.message (.kvOperationRequest m)) =
              w.log n ++ [{ term := (c.raft n).term, command := command }] := by
            rw [logAfter, fresh, if_pos hlead, hce]
            rfl
          rw [hafter]
          exact ⟨_, happ⟩
      next => exact absurd rfl hnil
    | _ => exact absurd rfl hnil

/-! ## One step of a core -/

/-- The watch over a step of node `n`, for some notion of safe indices and peers. -/
def watch (c : Cluster) (w : LogWorld) (n : Int) (i : Input) (safe : Int → Prop)
    (peers : RaftRole → List RaftPeer → Prop) : Watch where
  input := i
  before := c.raft n
  log := (c.raft n).logAfter (w.log n) i
  safe := safe
  peers := peers

variable {safe : Int → Prop} {peers : RaftRole → List RaftPeer → Prop}

theorem Logged.self {ids : List Int} {l : CoreLog} (h : Logged ids w w' n l) :
    w'.log n = l := by
  rw [h.log]
  exact Function.update_self ..

theorem sent_of_speaks {ids : List Int} (hb : Balloted ids w w' n r' ms)
    (hlog : Logged ids w' w'' n (watch c w n i safe peers).log) {m : RaftMessage}
    (hm : m ∈ ms ∨ m.isVote = false)
    (hs : Speaks (watch c w n i safe peers) r'.term r'.role m) {e : Envelope}
    (hr : route n caller m = some e) : Sent w'' e := by
  cases m with
  | requestVoteRequest m =>
    obtain rfl := Option.some.inj hr
    have hreq := hb.requests m (hm.resolve_right (by simp [RaftMessage.isVote]))
    show w''.vote n m.term = some n ∧ m.lastLogIndex = (w''.cand n m.term).length ∧
      m.lastLogTerm = lastTerm entryTerm (w''.cand n m.term)
    rw [hlog.vote, hlog.cand]
    exact hreq
  | appendEntriesRequest m =>
    obtain rfl := Option.some.inj hr
    obtain ⟨hrole, hterm, _, _, hprev, hes, hlab⟩ := hs
    have hl : w''.leader m.term = some n := by
      rw [hlog.leader, hterm]
      exact hb.leads hrole
    have hwt : w''.term n = m.term := by
      rw [hlog.term, hb.term, hterm]
      exact Function.update_self ..
    have hll := hlog.inv.leader_log n (by rw [hwt]; exact hl)
    rw [hwt, hlog.self] at hll
    rw [hll] at hes hlab
    refine ⟨hl, hprev, ?_, hlab⟩
    have hcore : (m.entries.map fun e => e.core.entry).map RaftLogEntry.core =
        m.entries.map RaftLogEntry.core := by
      rw [List.map_map]
      rfl
    show (m.entries.map fun e => e.core.entry).map RaftLogEntry.core <+: _
    rw [hcore]
    exact hes
  | generateSnapshotRequest m =>
    obtain rfl := Option.some.inj hr
    show Label (w''.log n) m.lastAppliedIndex m.lastAppliedTerm
    rw [hlog.self]
    exact hs.2
  | requestVoteResponse m => obtain rfl := Option.some.inj hr; trivial
  | appendEntriesResponse m => obtain rfl := Option.some.inj hr; trivial
  | installSnapshotRequest m => obtain rfl := Option.some.inj hr; trivial
  | installSnapshotResponse m => obtain rfl := Option.some.inj hr; trivial
  | applyCommitLogsRequest m => obtain rfl := Option.some.inj hr; trivial
  | applySnapshotRequest m => obtain rfl := Option.some.inj hr; trivial
  | _ => cases hr

/-- The step lemma: the world follows the core in two moves. -/
theorem LogInv.act (h : LogInv c w) (hl : c.Live n) (hin : InHand c w.vote n caller i)
    (hsent : ∀ m, i = .message m → Sent w { src := caller, dst := n, msg := m })
    (hvote : LeaderKeepsVote c n i) (happ : AppendsAtEnd c n i)
    (hends : Ends (watch c w n i safe peers) ((c.raft n).react i)) :
    ∃ w' w'', Balloted c.ids w w' n ((c.raft n).react i).raft
        (((c.raft n).react i).pushed.filter RaftMessage.isVote) ∧
      Logged c.ids w' w'' n ((c.raft n).logAfter (w.log n) i) ∧
      LogInv (c.act n caller i) w'' := by
  obtain ⟨w', hb⟩ := h.balloted hl hin hsent hvote (react_ballot (c.raft n) i)
  obtain ⟨w'', hlog⟩ := h.logged hl hsent happ hb
  refine ⟨w', w'', hb, hlog, ?_⟩
  have ha := acts_act caller i hl
  have hgrows := hb.grows.trans hlog.grows
  constructor
  case votes =>
    rw [hlog.vote, hb.vote]
    exact h.votes.act_live hl hin hvote
  case inv =>
    rw [act_ids]
    exact hlog.inv
  case term =>
    refine ha.forall_raft (P := fun a r => w''.term a = r.term) ?_ fun a hm hne => ?_
    · rw [hlog.term, hb.term]
      exact Function.update_self ..
    · rw [hlog.term, hb.term]
      exact (Function.update_of_ne hne _ _).trans (h.term a hm)
  case leads =>
    refine ha.forall_raft (P := fun a r => r.role = .leader → w''.leader r.term = some a) ?_ ?_
    · rw [hlog.leader]
      exact hb.leads
    · exact fun a hm _ hr => hgrows.leader _ _ (h.leads a hm hr)
  case runs =>
    refine ha.forall_raft (P := fun a r => r.role = .candidate →
      w''.leader r.term ≠ some a) ?_ ?_
    · rw [hlog.leader]
      exact hb.runs
    · intro a hm hne hr hlead
      rw [hlog.leader] at hlead
      rcases hb.leader _ _ hlead with hold | hself
      · exact h.runs a hm hr hold
      · exact hne hself
  case part =>
    refine ha.forall_raft (P := fun a r => r.Part (w''.log a)) ?_ fun a hm hne => ?_
    · rw [hlog.self]
      exact hends.part
    · rw [hlog.log, Function.update_of_ne hne, congrFun hb.log a]
      exact h.part a hm
  case holds =>
    intro a hla
    rcases live_of_act hl hla with ⟨rfl, hthrown⟩ | ⟨hne, hla⟩
    · rw [act_raft_self hl, hlog.self]
      exact hends.holds hthrown
    · rw [act_raft_other hl hne, hlog.log, Function.update_of_ne hne, congrFun hb.log a]
      exact h.holds a hla
  case sent =>
    intro e he
    rcases ha.mem_net he with he | he
    · exact (h.sent e he).grows h.inv hgrows
    · obtain ⟨m, hm, hr⟩ := List.mem_filterMap.mp he
      refine sent_of_speaks hb hlog ?_ (hends.speaks m hm) hr
      by_cases hv : m.isVote = true
      · exact .inl (List.mem_filter.mpr ⟨hm, hv⟩)
      · exact .inr (by simpa using hv)

end Logs

/-! ## Runs -/

section Runs

open Raft

variable {c : Cluster} {w : LogWorld} {n caller : Int} {i : Input}

/-- Nothing is tracked but the log. -/
theorem LogInv.fair (h : LogInv c w) (hl : c.Live n)
    (hsent : ∀ m, i = .message m → Sent w { src := caller, dst := n, msg := m })
    (hmis : MismatchOutside c n i) (hins : SnapshotsOwnEntry c n i) :
    Fair (watch c w n i (fun _ => True) fun _ _ => True) where
  start := ⟨rfl, trivial, trivial, trivial, trivial⟩
  follow := trivial
  stand := trivial
  lead := fun _ => trivial
  commit := fun _ _ _ _ => trivial
  mismatch := by
    rintro m rfl
    exact hmis
  answer := fun _ _ _ _ _ _ _ => ⟨trivial, fun _ => trivial⟩
  retry := fun _ _ _ _ => trivial
  installed := fun _ _ _ _ => trivial
  applied := fun _ _ => trivial
  generated := by
    rintro m rfl _
    exact ⟨trivial, Label.mono (hsent _ rfl) (List.prefix_append _ _)⟩
  received := by
    rintro m rfl hok
    refine ⟨trivial, Label.mono ?_ (List.prefix_append _ _)⟩
    exact (h.holds n hl).label_of_getTermAt (hins hok).1

theorem LogInv.post (h : LogInv c w) {e : Envelope} (hs : Sent w e)
    (hv : VoteInv (c.post [e]) w.vote) : LogInv (c.post [e]) w where
  votes := hv
  inv := h.inv
  term := h.term
  leads := h.leads
  runs := h.runs
  part := h.part
  holds := h.holds
  sent := fun x hx => by
    rcases List.mem_append.mp hx with hx | hx
    · exact h.sent x hx
    · rw [List.mem_singleton.mp hx]
      exact hs

theorem keepsLogs_timer (hi : ∀ m, i ≠ .message m) : KeepsLogs c n i := by
  cases i with
  | message m => exact absurd rfl (hi m)
  | _ => exact ⟨trivial, trivial, trivial, trivial⟩

theorem inHand_timer {v : Int → Nat → Option Int} (hi : ∀ m, i ≠ .message m) :
    InHand c v n caller i := by
  cases i with
  | message m => exact absurd rfl (hi m)
  | _ => trivial

theorem sent_clerk {b : Bool} {e : Envelope} {m : RaftMessage} (hs : Sent w e)
    (hm : clerkAnswer b e.msg = some m) : Sent w { e with msg := m } := by
  cases he : e.msg with
  | generateSnapshotRequest q =>
    rw [he] at hm
    obtain rfl := Option.some.inj hm
    have hlab : Label (w.log e.dst) q.lastAppliedIndex q.lastAppliedTerm := by
      simp only [Sent, he] at hs
      exact hs
    cases b with
    | true => exact hlab
    | false => exact .inl rfl
  | applyCommitLogsRequest q =>
    rw [he] at hm
    obtain rfl := Option.some.inj hm
    trivial
  | applySnapshotRequest q =>
    rw [he] at hm
    obtain rfl := Option.some.inj hm
    trivial
  | _ =>
    rw [he] at hm
    cases hm

theorem sent_default (caller callee : Int) (kind : RpcKind) :
    Sent w { src := callee, dst := caller, msg := kind.defaultResponse callee } := by
  cases kind <;> trivial

theorem LogInv.step_act (h : LogInv c w) (hin : InHand c w.vote n caller i)
    (hsent : ∀ m, i = .message m → Sent w { src := caller, dst := n, msg := m })
    (hk : KeepsLogs c n i) : ∃ w', LogInv (c.act n caller i) w' := by
  by_cases hl : c.Live n
  · have hends := react_log (h.fair hl hsent hk.mismatch hk.snapshot) (h.holds n hl) rfl
    obtain ⟨_, w'', _, _, h''⟩ := h.act hl hin hsent hk.vote hk.append hends
    exact ⟨w'', h''⟩
  · rw [act_dead hl]
    exact ⟨w, h⟩

theorem LogInv.step (h : LogInv c w) {a : Action} {c' : Cluster}
    (hg : c.Obeys KeepsLogs a) (hs : c.step a = some c') : ∃ w', LogInv c' w' := by
  cases moves_of_step hs with
  | timer hi =>
    exact h.step_act (inHand_timer hi) (fun m hm => absurd hm (hi m)) (keepsLogs_timer hi)
  | client =>
    refine h.step_act trivial (fun m hm => ?_) ⟨trivial, trivial, trivial, trivial⟩
    obtain rfl := Input.message.inj hm
    trivial
  | @deliver k e hk he =>
    by_cases hl : c.Live e.dst
    · have hok := obeys_deliver hg hk he hl
      refine (h.take k).step_act (h.votes.inHand hk hl.1) (fun m hm => ?_)
        ⟨hok.vote, hok.append, hok.mismatch, hok.snapshot⟩
      obtain rfl := Input.message.inj hm
      exact h.sent e (List.mem_of_getElem? hk)
    · rw [act_dead (take_live.not.mpr hl)]
      exact ⟨w, h.take k⟩
  | clerk hk hm =>
    exact ⟨w, (h.take _).post (sent_clerk (h.sent _ (List.mem_of_getElem? hk)) hm)
      ((h.votes.take _).clerk hm)⟩
  | lose => exact ⟨w, h.take _⟩
  | rpcFailure =>
    exact ⟨w, h.post (sent_default _ _ _) (h.votes.rpcFailure _ _ _)⟩

theorem Reaches.logInv {ids : List Int} (hm : Membership ids)
    (hr : Reaches KeepsLogs ids c) : ∃ w, LogInv c w := by
  obtain ⟨as, hr⟩ := hr
  refine hr.invariant (I := fun c => ∃ w, LogInv c w) ?_ ⟨_, logInv_init hm⟩
  rintro s a t ⟨w, hw⟩ hok hs
  exact hw.step hok hs

end Runs

/-! ## The vectors and the snapshots -/

section Covered

variable {c : Cluster} {n caller : Int} {i : Input}

theorem SnapshotsOwnEntry.reach (h : SnapshotsOwnEntry c n i) :
    (c.raft n).SnapshotsReach i where
  taken := by
    rintro m rfl
    exact h
  received := by
    rintro m rfl hok
    exact (h hok).2.imp_right And.left

/-- On every node, and at the end of every step so far, all that has left the vector is
in the snapshot. -/
structure CoveredInv (c : Cluster) : Prop where
  nodes : ∀ n ∈ c.ids, (c.raft n).Covered
  seen : ∀ s ∈ c.history, s.post.Covered

theorem CoveredInv.act (h : CoveredInv c) (hr : (c.raft n).SnapshotsReach i) :
    CoveredInv (c.act n caller i) := by
  by_cases hl : c.Live n
  · have ha := acts_act caller i hl
    have hpost := Raft.covered_react (h.nodes n hl.1) hr
    refine ⟨ha.forall_raft (P := fun _ r => r.Covered) hpost fun a ha _ => h.nodes a ha,
      fun s hs => ?_⟩
    rcases ha.mem_history hs with hs | rfl
    · exact h.seen s hs
    · exact hpost
  · rw [act_dead hl]
    exact h

theorem snapshotsReach_of_timer {r : Raft} (hi : ∀ m, i ≠ .message m) :
    r.SnapshotsReach i where
  taken := fun _ h => absurd h (hi _)
  received := fun _ h => absurd h (hi _)

theorem CoveredInv.step {ok : Cluster → Int → Input → Prop}
    (hok : ∀ c n i, ok c n i → SnapshotsOwnEntry c n i) {a : Action} {c' : Cluster}
    (h : CoveredInv c) (hg : c.Obeys ok a) (hs : c.step a = some c') : CoveredInv c' := by
  cases moves_of_step hs with
  | timer hi => exact h.act (snapshotsReach_of_timer hi)
  | client => exact h.act ⟨fun _ hm => (nomatch hm), fun _ hm => (nomatch hm)⟩
  | @deliver k e hk he =>
    have ht : CoveredInv (c.take k) := ⟨h.nodes, h.seen⟩
    by_cases hl : c.Live e.dst
    · exact ht.act (hok _ _ _ (obeys_deliver hg hk he hl)).reach
    · rw [act_dead (take_live.not.mpr hl)]
      exact ht
  | clerk => exact ⟨h.nodes, h.seen⟩
  | lose => exact ⟨h.nodes, h.seen⟩
  | rpcFailure => exact ⟨h.nodes, h.seen⟩

theorem Reaches.coveredInv {ok : Cluster → Int → Input → Prop}
    (hok : ∀ c n i, ok c n i → SnapshotsOwnEntry c n i) {ids : List Int}
    (hr : Reaches ok ids c) : CoveredInv c := by
  obtain ⟨as, hr⟩ := hr
  refine hr.invariant (I := CoveredInv) (fun s a t hi hg hs => hi.step hok hg hs) ⟨?_, ?_⟩
  · intro n _
    show (1 : Int) ≤ 0 + 1
    omega
  · exact fun s hs => absurd hs List.not_mem_nil

end Covered

/-! ## Log matching -/

/-- Two logs with entries of one term at one index agree below, wherever neither node has
compacted the index. -/
def LogMatching (c : Cluster) : Prop :=
  ∀ a ∈ c.ids, ∀ b ∈ c.ids, ∀ (i : Int) (ea eb : RaftLogEntry),
    (c.raft a).getLogAt i = some ea → (c.raft b).getLogAt i = some eb →
    ea.term = eb.term → ∀ j, j ≤ i → ¬ (c.raft a).Compacted j → ¬ (c.raft b).Compacted j →
      ∃ xa xb, (c.raft a).getLogAt j = some xa ∧ (c.raft b).getLogAt j = some xb ∧
        xa.core = xb.core

/-- The vector has no holes. -/
theorem getLogAt_below {r : Raft} {i j : Int} {e : RaftLogEntry} (h : r.getLogAt i = some e)
    (hj : j ≤ i) (hb : r.baseIndex ≤ j) : ∃ x, r.getLogAt j = some x := by
  unfold Raft.getLogAt at *
  split at h
  · cases h
  next hr =>
    obtain ⟨hk, hget⟩ := Raft.logsAt_some h
    have hlen : (i - r.baseIndex).toNat < r.logs.length :=
      (List.getElem?_eq_some_iff.mp hget).1
    rw [if_neg (by omega)]
    unfold Raft.logsAt
    rw [if_neg (by omega), List.getElem?_eq_getElem (by omega)]
    exact ⟨_, rfl⟩

theorem LogInv.logMatching {c : Cluster} {w : LogWorld} (h : LogInv c w)
    (hc : CoveredInv c) : c.LogMatching := by
  intro a ha b hb i ea eb hea heb ht j hj hja hjb
  obtain ⟨xa, hxa⟩ := getLogAt_below hea hj ((hc.nodes a ha).baseIndex_le hja)
  obtain ⟨xb, hxb⟩ := getLogAt_below heb hj ((hc.nodes b hb).baseIndex_le hjb)
  refine ⟨xa, xb, hxa, hxb, ?_⟩
  obtain ⟨hi, hla⟩ := (h.part a ha).getLogAt hea
  obtain ⟨_, hlb⟩ := (h.part b hb).getLogAt heb
  obtain ⟨hj1, hja'⟩ := (h.part a ha).getLogAt hxa
  obtain ⟨_, hjb'⟩ := (h.part b hb).getLogAt hxb
  have htake := (h.inv.proper_log a).traced.take_eq (h.inv.proper_log b).traced hla hlb ht
  have hlt : (j - 1).toNat < (i - 1).toNat + 1 := by omega
  have hget := congrArg (fun l : CoreLog => l[(j - 1).toNat]?) htake
  simp only [List.getElem?_take, if_pos hlt, hja', hjb'] at hget
  exact Option.some.inj hget

/-- Log Matching, in every run whose steps keep the logs. -/
theorem logMatching_of_keepsLogs (ids : List Int) (c : Cluster) (hm : Membership ids)
    (hr : Reaches KeepsLogs ids c) : c.LogMatching := by
  obtain ⟨w, hw⟩ := hr.logInv hm
  exact hw.logMatching (hr.coveredInv fun _ _ _ h => h.snapshot)

/-- A client write `put k v`. -/
def putRequest (k v : Char) : KVOperationRequestMessage :=
  { uuid := ['u'], opType := .put, key := [k], value := [v] }

/-- Node 0 wins with the vote of node 1. -/
def zeroLeads : List Action := [.electionTimeout 0, .deliver 0, .deliver 1]

/-- Two writes before the first reply: the second request carries both entries, and node
1 appends both to the one it has. -/
def pipelinedWrites : List Action :=
  zeroLeads ++ [.client 0 (putRequest 'a' '1'), .client 0 (putRequest 'b' '2'), .deliver 3,
    .deliver 4]

theorem entries_appended_twice :
    ¬ ∀ (ids : List Int) (c : Cluster), Membership ids → Reaches anyStep ids c →
      c.LogMatching := by
  intro h
  obtain ⟨c, hr, hc⟩ := Reaches.of_exec anyStep [0, 1, 2]
    pipelinedWrites
    (fun c => decide (c.ids = [0, 1, 2] ∧ ¬ (c.raft 0).Compacted 2 ∧
      ¬ (c.raft 1).Compacted 2 ∧ ∃ x ∈ (c.raft 0).getLogAt 2, ∃ y ∈ (c.raft 1).getLogAt 2,
        x.term = y.term ∧ x.core ≠ y.core)) (by decide +kernel)
  obtain ⟨hids, hb0, hb1, x, hx, y, hy, ht, hne⟩ := of_decide_eq_true hc
  obtain ⟨xa, xb, hxa, hxb, heq⟩ := h [0, 1, 2] c ⟨by decide, by decide⟩ hr 0 (by simp [hids])
    1 (by simp [hids]) 2 x y hx hy ht 2 (by omega) hb0 hb1
  rw [Option.mem_def.mp hx] at hxa
  rw [Option.mem_def.mp hy] at hxb
  rw [← Option.some.inj hxa, ← Option.some.inj hxb] at heq
  exact hne heq

/-- The same writes, with a reply between them. -/
theorem logMatching_three :
    ∃ c, Reaches KeepsLogs [0, 1, 2] c ∧ (c.raft 1).logs.length = 2 ∧ c.LogMatching := by
  obtain ⟨c, hr, hc⟩ := Reaches.of_exec KeepsLogs [0, 1, 2]
    (zeroLeads ++ [.client 0 (putRequest 'a' '1'), .deliver 3, .deliver 4,
      .client 0 (putRequest 'b' '2'), .deliver 5])
    (fun c => decide ((c.raft 1).logs.length = 2)) (by decide +kernel)
  exact ⟨c, hr, of_decide_eq_true hc,
    logMatching_of_keepsLogs [0, 1, 2] c ⟨by decide, by decide⟩ hr⟩

end Cluster

end WWRaftKV
