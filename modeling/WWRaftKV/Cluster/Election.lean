/-
Elections.

A term has at most one leader as long as no leader votes.  `_BecomeLeader` resets
`_Voted_for` to "nobody", so a leader that receives a vote request of its own term
grants it, although it has voted for itself in that term.  `two_leaders` runs
into this with three nodes.  `electionSafety_of_leaderKeepsVote` excludes exactly
that step.

The invariant `VoteInv` is about a record `v` of votes: `v n t = some k` says that
node `n` has voted for `k` in term `t`.  The record is never erased, where the
field `votedFor` is.
-/
import WWRaftKV.General.Quorum
import WWRaftKV.Cluster.Step

namespace WWRaftKV

/-- `_BecomeLeader` ran in this step: only it makes a node a leader. -/
def CoreStep.BecomesLeader (s : CoreStep) : Prop :=
  s.pre.role ≠ .leader ∧ s.post.role = .leader

instance (s : CoreStep) : Decidable s.BecomesLeader := by
  unfold CoreStep.BecomesLeader
  infer_instance

/-- Distinct node ids, none of which is the mark for "nobody".  `RaftClerk` uses an
id as a position in `_Peers` and in `_Clients`. -/
structure Membership (ids : List Int) : Prop where
  nodup : ids.Nodup
  valid : -1 ∉ ids

theorem Membership.ne_none {ids : List Int} (h : Membership ids) {n : Int} (hn : n ∈ ids) :
    n ≠ -1 := fun hne => h.valid (hne ▸ hn)

namespace Cluster

/-- No term has two nodes that have become its leader. -/
def ElectionSafety (c : Cluster) : Prop :=
  ∀ s ∈ c.history, ∀ t ∈ c.history, s.BecomesLeader → t.BecomesLeader →
    s.post.term = t.post.term → s.node = t.node

instance (c : Cluster) : Decidable c.ElectionSafety := by
  unfold ElectionSafety
  infer_instance

/-- The step does not hand a leader a vote request that carries the leader's own
term and a log at least as up to date as the leader's. -/
def LeaderKeepsVote (c : Cluster) (n : Int) : Input → Prop
  | .message (.requestVoteRequest m) =>
    (c.raft n).role = .leader → m.term = (c.raft n).term →
      (c.raft n).logUpToDate m.lastLogIndex m.lastLogTerm = false
  | _ => True

instance (c : Cluster) (n : Int) (i : Input) : Decidable (LeaderKeepsVote c n i) := by
  induction i using Input.casesOn with
  | message m =>
    induction m using RaftMessage.casesOn <;> unfold LeaderKeepsVote <;> infer_instance
  | _ => exact .isTrue trivial

/-! ## The record of votes -/

/-- The vote a node holds in its current term. -/
def heldVote (r : Raft) : Option Int := if r.votedFor = -1 then none else some r.votedFor

/-- The record after node `n` has come to state `r`. -/
def recordVote (v : Int → Nat → Option Int) (n : Int) (r : Raft) :
    Int → Nat → Option Int :=
  fun a t => if a = n ∧ t = r.term ∧ r.votedFor ≠ -1 then some r.votedFor else v a t

/-- The number of members that have voted for `k` in term `t`. -/
def votesFor (ids : List Int) (v : Int → Nat → Option Int) (k : Int) (t : Nat) : Nat :=
  ids.countP fun n => v n t == some k

/-- A vote request from `k` to `n` in term `t`. -/
def isRequest (k n : Int) (t : Nat) (e : Envelope) : Bool :=
  match e.msg with
  | .requestVoteRequest m => e.src == k && e.dst == n && m.term == t
  | _ => false

/-- A granted vote on its way to `k` in term `t`. -/
def isGrant (k : Int) (t : Nat) (e : Envelope) : Bool :=
  match e.msg with
  | .requestVoteResponse m => e.dst == k && m.term == t && m.voteGranted
  | _ => false

structure VoteInv (c : Cluster) (v : Int → Nat → Option Int) : Prop where
  members : Membership c.ids
  ident : ∀ n ∈ c.ids, (c.raft n).id = n
  peers : ∀ n ∈ c.ids, (c.raft n).peers.map (·.id) = c.ids
  /-- A node votes in terms it has reached, for candidates of terms they have
  reached. -/
  voter : ∀ n ∈ c.ids, ∀ t k, v n t = some k → t ≤ (c.raft n).term
  stood : ∀ n ∈ c.ids, ∀ t k, v n t = some k → k ∈ c.ids ∧ t ≤ (c.raft k).term
  held : ∀ n ∈ c.ids, (c.raft n).role ≠ .leader →
    v n (c.raft n).term = heldVote (c.raft n)
  leads : ∀ n ∈ c.ids, (c.raft n).role = .leader →
    (c.raft n).votedFor = -1 ∧ v n (c.raft n).term = some n
  runs : ∀ n ∈ c.ids, (c.raft n).role = .candidate → (c.raft n).votedFor = n
  /-- A vote request in flight comes from a candidate its receiver has not voted
  for yet, and there is no second copy. -/
  request : ∀ e ∈ c.net, ∀ m, e.msg = .requestVoteRequest m →
    e.dst ∈ c.ids ∧ e.src ∈ c.ids ∧ m.fromId = e.src ∧ m.term ≤ (c.raft e.src).term ∧
      v e.dst m.term ≠ some e.src
  once : ∀ k n t, c.net.countP (isRequest k n t) ≤ 1
  granted : ∀ e ∈ c.net, ∀ m, e.msg = .requestVoteResponse m → m.voteGranted = true →
    e.dst ∈ c.ids ∧ e.src ∈ c.ids ∧ v e.src m.term = some e.dst
  /-- The votes a candidate has counted and those on their way to it come from
  different members. -/
  counted : ∀ n ∈ c.ids, (c.raft n).role = .candidate →
    (c.raft n).voteCount + c.net.countP (isGrant n (c.raft n).term) ≤
      votesFor c.ids v n (c.raft n).term
  elected : ∀ s ∈ c.history, s.BecomesLeader →
    s.node ∈ c.ids ∧ Quorum.Majority c.ids (fun n => v n s.post.term == some s.node) ∧
      s.post.term ≤ (c.raft s.node).term

theorem VoteInv.electionSafety {c : Cluster} {v : Int → Nat → Option Int}
    (h : VoteInv c v) : c.ElectionSafety := by
  intro s hs t ht hsl htl hterm
  obtain ⟨_, hqs, _⟩ := h.elected s hs hsl
  obtain ⟨_, hqt, _⟩ := h.elected t ht htl
  obtain ⟨n, _, hn, hn'⟩ := hqs.meet hqt
  rw [hterm] at hn
  simp only [beq_iff_eq] at hn hn'
  exact Option.some.inj (hn.symm.trans hn')

theorem voteInv_init {ids : List Int} (h : Membership ids) :
    VoteInv (init ids) fun _ _ => none where
  members := h
  ident := fun _ _ => rfl
  peers := fun n _ => by
    show ((ids.map fun i => ({ id := i } : RaftPeer)).map (·.id)) = ids
    rw [List.map_map]
    exact List.map_id ids
  voter := by simp
  stood := by simp
  held := fun _ _ _ => rfl
  leads := fun n _ hr => by cases hr
  runs := fun n _ hr => by cases hr
  request := by simp [init]
  once := by simp [init]
  granted := by simp [init]
  counted := fun n _ hr => by cases hr
  elected := by simp [init]

/-! ## Votes in the bag -/

section Bag

variable {c : Cluster} {n caller : Int} {vs es : List Envelope} {e : Envelope}

theorem isRequest_self {m : RaftRequestVoteRequestMessage}
    (hm : e.msg = .requestVoteRequest m) : isRequest e.src e.dst m.term e = true := by
  simp [isRequest, hm]

/-- An answer is no request. -/
theorem countP_isRequest_answer (src dst : Int) (m : RaftRequestVoteResponseMessage)
    (k d : Int) (t : Nat) :
    [({ src := src, dst := dst, msg := .requestVoteResponse m } : Envelope)].countP
      (isRequest k d t) = 0 := rfl

/-- No request is left in the net, so one that is found there is another one. -/
theorem isRequest_ne {m : RaftRequestVoteRequestMessage} {k d : Int} {t : Nat}
    (hzero : es.countP (isRequest k d t) = 0) (he : e ∈ es)
    (hm : e.msg = .requestVoteRequest m) (hd : e.dst = d) (ht : m.term = t) : e.src ≠ k := by
  rintro rfl
  subst hd ht
  have hpos : 0 < es.countP (isRequest e.src e.dst m.term) :=
    List.countP_pos_iff.mpr ⟨e, he, isRequest_self hm⟩
  omega

theorem isGrant_self {m : RaftRequestVoteResponseMessage} (hm : e.msg = .requestVoteResponse m)
    (hg : m.voteGranted = true) : isGrant e.dst m.term e = true := by
  simp [isGrant, hm, hg]

/-- No request of `k` is for this term. -/
theorem countP_isRequest_eq_zero {k : Int} {t : Nat}
    (h : ∀ e ∈ es, ∀ m, e.msg = .requestVoteRequest m → e.src = k → m.term ≠ t) (d : Int) :
    es.countP (isRequest k d t) = 0 := by
  apply List.countP_eq_zero.mpr
  intro e he hreq
  cases hm : e.msg with
  | requestVoteRequest m =>
    simp only [isRequest, hm, Bool.and_eq_true, beq_iff_eq] at hreq
    exact h e he m hm hreq.1.1 hreq.2
  | _ => simp [isRequest, hm] at hreq

/-- No granted vote for `k` is for this term. -/
theorem countP_isGrant_eq_zero {k : Int} {t : Nat}
    (h : ∀ e ∈ es, ∀ m, e.msg = .requestVoteResponse m → m.voteGranted = true →
      e.dst = k → m.term ≠ t) : es.countP (isGrant k t) = 0 := by
  apply List.countP_eq_zero.mpr
  intro e he hg
  cases hm : e.msg with
  | requestVoteResponse m =>
    simp only [isGrant, hm, Bool.and_eq_true, beq_iff_eq] at hg
    exact h e he m hm hg.2 hg.1.1 hg.1.2
  | _ => simp [isGrant, hm] at hg

/-- Neither a vote request nor a granted vote is among the messages. -/
def Silent (vs : List Envelope) : Prop :=
  ∀ e ∈ vs, (∀ m, e.msg ≠ .requestVoteRequest m) ∧
    ∀ m, e.msg = .requestVoteResponse m → m.voteGranted = false

theorem silent_nil : Silent [] := nofun

theorem silent_singleton (hreq : ∀ m, e.msg ≠ .requestVoteRequest m)
    (hgrant : ∀ m, e.msg = .requestVoteResponse m → m.voteGranted = false) : Silent [e] := by
  intro x hx
  obtain rfl := List.mem_singleton.mp hx
  exact ⟨hreq, hgrant⟩

theorem silent_refusal {m : RaftRequestVoteResponseMessage} (h : m.voteGranted = false) :
    Silent [{ src := n, dst := caller, msg := .requestVoteResponse m }] := by
  apply silent_singleton
  · exact fun _ => nofun
  · intro m' hm'
    obtain rfl := RaftMessage.requestVoteResponse.inj hm'
    exact h

theorem clerkAnswer_not_vote {b : Bool} {m m' : RaftMessage} (h : clerkAnswer b m = some m') :
    m'.isVote = false := by
  cases m with
  | applyCommitLogsRequest m =>
    obtain rfl := Option.some.inj h
    rfl
  | generateSnapshotRequest m =>
    obtain rfl := Option.some.inj h
    rfl
  | applySnapshotRequest m =>
    obtain rfl := Option.some.inj h
    rfl
  | _ => cases h

/-- The clerk votes for nobody. -/
theorem silent_clerk {b : Bool} {m : RaftMessage} (h : clerkAnswer b e.msg = some m) :
    Silent [{ e with msg := m }] := by
  have hno := clerkAnswer_not_vote h
  refine silent_singleton (fun m' he => ?_) fun m' he => ?_ <;>
  · obtain rfl : m = _ := he
    cases hno

/-- A call that has failed grants no vote. -/
theorem silent_default (callee : Int) (kind : RpcKind) :
    Silent [{ src := callee, dst := caller, msg := kind.defaultResponse callee }] := by
  apply silent_singleton
  · intro m he
    cases kind <;> cases he
  · intro m he
    cases kind with
    | requestVote =>
      obtain rfl := RaftMessage.requestVoteResponse.inj he
      rfl
    | appendEntries => cases he
    | installSnapshot => cases he

theorem Silent.countP_isRequest (hs : Silent vs) (k d : Int) (t : Nat) :
    vs.countP (isRequest k d t) = 0 :=
  countP_isRequest_eq_zero (fun e he m hm => absurd hm ((hs e he).1 m)) d

theorem Silent.countP_isGrant (hs : Silent vs) (k : Int) (t : Nat) :
    vs.countP (isGrant k t) = 0 := by
  apply countP_isGrant_eq_zero
  intro e he m hm hg
  rw [(hs e he).2 m hm] at hg
  cases hg

theorem countP_take_le (c : Cluster) (k : Nat) (p : Envelope → Bool) :
    (c.take k).net.countP p ≤ c.net.countP p :=
  (List.eraseIdx_sublist c.net k).countP_le

/-- The message in hand is not counted any more. -/
theorem countP_take {k : Nat} (hk : c.net[k]? = some e) {p : Envelope → Bool}
    (hp : p e = true) : (c.take k).net.countP p + 1 = c.net.countP p := by
  rw [(take_net_perm hk).countP_eq p, List.countP_cons, if_pos hp]

end Bag

/-! ## Changes of the bag -/

/-- What the message in hand says once it has left the bag. -/
def InHand (c : Cluster) (v : Int → Nat → Option Int) (n caller : Int) : Input → Prop
  | .message (.requestVoteRequest m) =>
    caller ∈ c.ids ∧ m.fromId = caller ∧ m.term ≤ (c.raft caller).term ∧
      v n m.term ≠ some caller ∧ c.net.countP (isRequest caller n m.term) = 0
  | .message (.requestVoteResponse m) =>
    m.voteGranted = true → (c.raft n).role = .candidate → m.term = (c.raft n).term →
      (c.raft n).voteCount + c.net.countP (isGrant n (c.raft n).term) + 1 ≤
        votesFor c.ids v n (c.raft n).term
  | _ => True

variable {c : Cluster} {v : Int → Nat → Option Int}

theorem VoteInv.take (h : VoteInv c v) (k : Nat) : VoteInv (c.take k) v where
  members := h.members
  ident := h.ident
  peers := h.peers
  voter := h.voter
  stood := h.stood
  held := h.held
  leads := h.leads
  runs := h.runs
  request := fun e he m hm => h.request e (mem_of_mem_take he) m hm
  once := fun a n t => Nat.le_trans (countP_take_le c k _) (h.once a n t)
  granted := fun e he m hm hg => h.granted e (mem_of_mem_take he) m hm hg
  counted := fun n hn hr => by
    have hle := countP_take_le c k (isGrant n (c.raft n).term)
    have hc := h.counted n hn hr
    show (c.raft n).voteCount + (c.take k).net.countP (isGrant n (c.raft n).term) ≤
      votesFor c.ids v n (c.raft n).term
    omega
  elected := h.elected

theorem VoteInv.inHand (h : VoteInv c v) {k : Nat} {e : Envelope}
    (hk : c.net[k]? = some e) (hd : e.dst ∈ c.ids) :
    InHand (c.take k) v e.dst e.src (.message e.msg) := by
  have hmem : e ∈ c.net := List.mem_of_getElem? hk
  cases hmsg : e.msg with
  | requestVoteRequest m =>
    obtain ⟨_, hsrc, hfrom, hterm, hv⟩ := h.request e hmem m hmsg
    have hcount := countP_take hk (isRequest_self hmsg)
    have honce := h.once e.src e.dst m.term
    exact ⟨hsrc, hfrom, hterm, hv, by omega⟩
  | requestVoteResponse m =>
    intro hg hr ht
    have hc := h.counted e.dst hd hr
    have hcount := countP_take hk (isGrant_self hmsg hg)
    rw [show m.term = (c.raft e.dst).term from ht] at hcount
    show (c.raft e.dst).voteCount + _ + 1 ≤ votesFor c.ids v e.dst (c.raft e.dst).term
    rw [take_raft]
    omega
  | _ => trivial

/-- A message that is no vote request and no granted vote may enter the bag. -/
theorem VoteInv.post (h : VoteInv c v) {es : List Envelope} (hs : Silent es) :
    VoteInv (c.post es) v where
  members := h.members
  ident := h.ident
  peers := h.peers
  voter := h.voter
  stood := h.stood
  held := h.held
  leads := h.leads
  runs := h.runs
  request := fun x hx m hm => by
    rcases List.mem_append.mp hx with hx | hx
    · exact h.request x hx m hm
    · exact absurd hm ((hs x hx).1 m)
  once := fun a n t => by
    show (c.net ++ es).countP _ ≤ 1
    rw [List.countP_append, hs.countP_isRequest]
    exact h.once a n t
  granted := fun x hx m hm hg => by
    rcases List.mem_append.mp hx with hx | hx
    · exact h.granted x hx m hm hg
    · rw [(hs x hx).2 m hm] at hg
      cases hg
  counted := fun n hn hr => by
    show (c.raft n).voteCount + (c.net ++ es).countP (isGrant n (c.raft n).term) ≤
      votesFor c.ids v n (c.raft n).term
    rw [List.countP_append, hs.countP_isGrant]
    exact h.counted n hn hr
  elected := h.elected

/-! ## A step of a core -/

theorem recordVote_self {n : Int} {r : Raft} (h : r.votedFor ≠ -1) :
    recordVote v n r n r.term = some r.votedFor := if_pos ⟨rfl, rfl, h⟩

theorem recordVote_of_none {n : Int} {r : Raft} (h : r.votedFor = -1) :
    recordVote v n r = v := by
  funext a t
  exact if_neg fun hr => hr.2.2 h

theorem recordVote_other {n a : Int} {t : Nat} {r : Raft} (h : ¬ (a = n ∧ t = r.term)) :
    recordVote v n r a t = v a t := if_neg fun hr => h ⟨hr.1, hr.2.1⟩

theorem route_isVote {n caller : Int} {m : RaftMessage} {e : Envelope}
    (h : route n caller m = some e) : e.msg.isVote = m.isVote := by
  cases m <;> first | (obtain rfl := Option.some.inj h; rfl) | cases h

theorem filter_route (n caller : Int) (ms : List RaftMessage) :
    (ms.filterMap (route n caller)).filter (fun e => e.msg.isVote) =
      (ms.filter RaftMessage.isVote).filterMap (route n caller) := by
  induction ms with
  | nil => rfl
  | cons m ms ih =>
    rw [List.filterMap_cons, List.filter_cons]
    cases hr : route n caller m with
    | none =>
      simp only
      split
      · rw [List.filterMap_cons, hr, ih]
      · exact ih
    | some e =>
      simp only
      rw [List.filter_cons, route_isVote hr, ih]
      split
      · rw [List.filterMap_cons, hr]
      · rfl

theorem isRequest_votes {k n : Int} {t : Nat} (e : Envelope) (h : isRequest k n t e = true) :
    e.msg.isVote = true := by
  cases hm : e.msg with
  | requestVoteRequest m => rfl
  | _ => simp [isRequest, hm] at h

theorem isGrant_votes {k : Int} {t : Nat} (e : Envelope) (h : isGrant k t e = true) :
    e.msg.isVote = true := by
  cases hm : e.msg with
  | requestVoteResponse m => rfl
  | _ => simp [isGrant, hm] at h

/-- Only the vote messages count. -/
theorem countP_votes {p : Envelope → Bool} (hp : ∀ e, p e = true → e.msg.isVote = true)
    (es : List Envelope) : es.countP p = (es.filter fun e => e.msg.isVote).countP p := by
  rw [List.countP_filter]
  refine List.countP_congr fun e _ => ?_
  constructor
  · intro h
    rw [h, hp e h]
    rfl
  · intro h
    exact (Bool.and_eq_true_iff.mp h).1

theorem votesFor_mono {ids : List Int} {v v' : Int → Nat → Option Int} {k : Int} {t : Nat}
    (h : ∀ n, v n t = some k → v' n t = some k) :
    votesFor ids v k t ≤ votesFor ids v' k t := by
  refine List.countP_mono_left fun n _ hn => ?_
  rw [beq_iff_eq] at hn ⊢
  exact h n hn

/-- What has to be checked about node `n` when it comes to state `r'` and puts the vote
messages `vs` into the bag. -/
structure Casts (c : Cluster) (v : Int → Nat → Option Int) (n : Int) (r' : Raft)
    (vs : List Envelope) : Prop where
  id : r'.id = (c.raft n).id
  peers : r'.peers.map (·.id) = (c.raft n).peers.map (·.id)
  term : (c.raft n).term ≤ r'.term
  /-- No vote is overwritten by another one. -/
  fresh : r'.votedFor ≠ -1 → v n r'.term = none ∨ v n r'.term = some r'.votedFor
  stood : r'.votedFor ≠ -1 →
    r'.votedFor ∈ c.ids ∧ (r'.votedFor ≠ n → r'.term ≤ (c.raft r'.votedFor).term)
  held : r'.role ≠ .leader → r'.votedFor = -1 → v n r'.term = none
  leads : r'.role = .leader → r'.votedFor = -1 ∧ v n r'.term = some n
  runs : r'.role = .candidate → r'.votedFor = n
  request : ∀ e ∈ vs, ∀ m, e.msg = .requestVoteRequest m →
    e.dst ∈ c.ids ∧ e.src = n ∧ m.fromId = n ∧ m.term ≤ r'.term ∧
      recordVote v n r' e.dst m.term ≠ some n
  pending : r'.votedFor ≠ -1 → ∀ e ∈ c.net, ∀ m, e.msg = .requestVoteRequest m →
    e.dst = n → m.term = r'.term → e.src ≠ r'.votedFor
  once : ∀ k d t, c.net.countP (isRequest k d t) + vs.countP (isRequest k d t) ≤ 1
  granted : ∀ e ∈ vs, ∀ m, e.msg = .requestVoteResponse m → m.voteGranted = true →
    e.dst ∈ c.ids ∧ e.src = n ∧ recordVote v n r' n m.term = some e.dst
  counted : r'.role = .candidate →
    r'.voteCount + (c.net.countP (isGrant n r'.term) + vs.countP (isGrant n r'.term)) ≤
      votesFor c.ids (recordVote v n r') n r'.term
  counted_other : ∀ a ∈ c.ids, a ≠ n → ∀ t,
    votesFor c.ids v a t + vs.countP (isGrant a t) ≤ votesFor c.ids (recordVote v n r') a t
  elected : (c.raft n).role ≠ .leader → r'.role = .leader →
    Quorum.Majority c.ids fun a => v a r'.term == some n

section Acts

variable {n : Int} {r' : Raft} {ms : List RaftMessage} {new : List Envelope} {c' : Cluster}

theorem record_mono
    (hf : r'.votedFor ≠ -1 → v n r'.term = none ∨ v n r'.term = some r'.votedFor) {a k : Int}
    {t : Nat} (h : v a t = some k) : recordVote v n r' a t = some k := by
  by_cases hr : a = n ∧ t = r'.term ∧ r'.votedFor ≠ -1
  · obtain ⟨rfl, rfl, hv⟩ := hr
    rw [recordVote_self hv]
    rcases hf hv with hf | hf
    · rw [hf] at h
      cases h
    · exact hf.symm.trans h
  · exact (if_neg hr).trans h

theorem record_cases {a k : Int} {t : Nat} (h : recordVote v n r' a t = some k) :
    (a = n ∧ t = r'.term ∧ r'.votedFor ≠ -1 ∧ k = r'.votedFor) ∨ v a t = some k := by
  unfold recordVote at h
  split at h
  next hr => exact .inl ⟨hr.1, hr.2.1, hr.2.2, (Option.some.inj h).symm⟩
  next => exact .inr h

/-- The votes that candidates have counted and those on their way, after the step. -/
theorem Acts.counted (ha : c.Acts n r' ms new c') {f : Int → Nat → Nat}
    (hself : r'.role = .candidate →
      r'.voteCount + (c.net.countP (isGrant n r'.term) +
        (new.filter fun e => e.msg.isVote).countP (isGrant n r'.term)) ≤ f n r'.term)
    (hother : ∀ a ∈ c.ids, a ≠ n → (c.raft a).role = .candidate →
      (c.raft a).voteCount + c.net.countP (isGrant a (c.raft a).term) +
        (new.filter fun e => e.msg.isVote).countP (isGrant a (c.raft a).term) ≤
          f a (c.raft a).term) :
    ∀ a ∈ c'.ids, (c'.raft a).role = .candidate →
      (c'.raft a).voteCount + c'.net.countP (isGrant a (c'.raft a).term) ≤
        f a (c'.raft a).term := by
  rw [ha.net]
  refine ha.forall_raft (P := fun a r => r.role = .candidate →
    r.voteCount + (c.net ++ new).countP (isGrant a r.term) ≤ f a r.term) ?_ ?_
  · intro hr
    rw [List.countP_append, countP_votes isGrant_votes new]
    exact hself hr
  · intro a ha' hne hr
    rw [List.countP_append, countP_votes isGrant_votes new, ← Nat.add_assoc]
    exact hother a ha' hne hr

/-- The step lemma of the voting invariant. -/
theorem VoteInv.acts (h : VoteInv c v) (hn : n ∈ c.ids) (ha : c.Acts n r' ms new c')
    (hc : Casts c v n r' (new.filter fun e => e.msg.isVote)) :
    VoteInv c' (recordVote v n r') := by
  have hterm := ha.raft_term hc.term
  have hnew : ∀ e ∈ new, e.msg.isVote = true → e ∈ new.filter fun e => e.msg.isVote :=
    fun e he hv => List.mem_filter.mpr ⟨he, hv⟩
  have hmaj : ∀ k t, Quorum.Majority c.ids (fun a => v a t == some k) →
      Quorum.Majority c.ids fun a => recordVote v n r' a t == some k := by
    intro k t hq
    refine hq.mono fun a _ hv => ?_
    rw [beq_iff_eq] at hv ⊢
    exact record_mono hc.fresh hv
  constructor
  case members => rw [ha.ids]; exact h.members
  case ident =>
    exact ha.forall_raft (P := fun a r => r.id = a) (hc.id.trans (h.ident n hn))
      fun a ha' _ => h.ident a ha'
  case peers =>
    rw [ha.ids]
    have hp := ha.forall_raft (P := fun _ r => r.peers.map (·.id) = c.ids)
      (hc.peers.trans (h.peers n hn)) fun a ha' _ => h.peers a ha'
    rw [ha.ids] at hp
    exact hp
  case voter =>
    intro a haIds t k hv
    rw [ha.ids] at haIds
    rcases record_cases hv with ⟨rfl, rfl, _, _⟩ | hv
    · rw [ha.self]
    · exact Nat.le_trans (h.voter a haIds t k hv) (hterm a)
  case stood =>
    intro a haIds t k hv
    rw [ha.ids] at haIds ⊢
    rcases record_cases hv with ⟨rfl, rfl, hne, rfl⟩ | hv
    · obtain ⟨hk, hle⟩ := hc.stood hne
      refine ⟨hk, ?_⟩
      by_cases hself : r'.votedFor = a
      · rw [hself, ha.self]
      · rw [ha.other _ hself]
        exact hle hself
    · obtain ⟨hk, hle⟩ := h.stood a haIds t k hv
      exact ⟨hk, Nat.le_trans hle (hterm k)⟩
  case held =>
    refine ha.forall_raft (P := fun a r => r.role ≠ .leader →
      recordVote v n r' a r.term = heldVote r) ?_ ?_
    · intro hr
      by_cases hv : r'.votedFor = -1
      · rw [recordVote_of_none hv, heldVote, if_pos hv]
        exact hc.held hr hv
      · rw [recordVote_self hv, heldVote, if_neg hv]
    · intro a ha' hne hr
      rw [recordVote_other fun hr => hne hr.1]
      exact h.held a ha' hr
  case leads =>
    refine ha.forall_raft (P := fun a r => r.role = .leader →
      r.votedFor = -1 ∧ recordVote v n r' a r.term = some a) ?_ ?_
    · intro hr
      obtain ⟨hv, hs⟩ := hc.leads hr
      exact ⟨hv, record_mono hc.fresh hs⟩
    · intro a ha' hne hr
      obtain ⟨hv, hs⟩ := h.leads a ha' hr
      exact ⟨hv, record_mono hc.fresh hs⟩
  case runs =>
    exact ha.forall_raft (P := fun a r => r.role = .candidate → r.votedFor = a) hc.runs
      fun a ha' _ => h.runs a ha'
  case request =>
    intro e he m hm
    rw [ha.ids]
    rcases ha.mem_net he with he | he
    · obtain ⟨hd, hs, hf, ht, hv⟩ := h.request e he m hm
      refine ⟨hd, hs, hf, Nat.le_trans ht (hterm _), fun hrec => ?_⟩
      rcases record_cases hrec with ⟨hdst, hmt, hne, hsrc⟩ | hrec
      · exact hc.pending hne e he m hm hdst hmt hsrc
      · exact hv hrec
    · obtain ⟨hd, hs, hf, ht, hv⟩ := hc.request e (hnew e he (by rw [hm]; rfl)) m hm
      rw [hs, ha.self]
      exact ⟨hd, hn, hf, ht, hv⟩
  case once =>
    intro k d t
    rw [ha.net, List.countP_append, countP_votes isRequest_votes new]
    exact hc.once k d t
  case granted =>
    intro e he m hm hg
    rw [ha.ids]
    rcases ha.mem_net he with he | he
    · obtain ⟨hd, hs, hv⟩ := h.granted e he m hm hg
      exact ⟨hd, hs, record_mono hc.fresh hv⟩
    · obtain ⟨hd, hs, hv⟩ := hc.granted e (hnew e he (by rw [hm]; rfl)) m hm hg
      rw [hs]
      exact ⟨hd, hn, hv⟩
  case counted =>
    have hother : ∀ a ∈ c.ids, a ≠ n → (c.raft a).role = .candidate →
        (c.raft a).voteCount + c.net.countP (isGrant a (c.raft a).term) +
          (new.filter fun e => e.msg.isVote).countP (isGrant a (c.raft a).term) ≤
            votesFor c.ids (recordVote v n r') a (c.raft a).term := by
      intro a ha' hne hr
      have hold := h.counted a ha' hr
      have hmore := hc.counted_other a ha' hne (c.raft a).term
      omega
    have hall := ha.counted hc.counted hother
    rw [ha.ids] at hall ⊢
    exact hall
  case elected =>
    intro s hs hl
    rw [ha.ids]
    rcases ha.mem_history hs with hs | rfl
    · obtain ⟨hmem, hq, hle⟩ := h.elected s hs hl
      exact ⟨hmem, hmaj _ _ hq, Nat.le_trans hle (hterm _)⟩
    · refine ⟨hn, hmaj _ _ (hc.elected hl.1 hl.2), ?_⟩
      show r'.term ≤ (c'.raft n).term
      rw [ha.self]

end Acts

/-! ## Every step of a core casts its votes properly -/

section Ballots

open Raft

variable {n caller : Int} {r' : Raft} {vs : List Envelope} {i : Input}

/-- The vote that a node holds is on record. -/
theorem VoteInv.voted (h : VoteInv c v) (hn : n ∈ c.ids) (hv : (c.raft n).votedFor ≠ -1) :
    v n (c.raft n).term = some (c.raft n).votedFor := by
  have hr : (c.raft n).role ≠ .leader := fun hr => hv (h.leads n hn hr).1
  rw [h.held n hn hr, heldVote, if_neg hv]

theorem VoteInv.fresh_term (h : VoteInv c v) (hn : n ∈ c.ids) {t : Nat}
    (ht : (c.raft n).term < t) : v n t = none := by
  cases hv : v n t with
  | none => rfl
  | some k =>
    have hle := h.voter n hn t k hv
    omega

/-- Nobody has heard of a term that the node has not reached. -/
theorem VoteInv.term_of_request (h : VoteInv c v) {t : Nat} (ht : (c.raft n).term < t)
    {e : Envelope} (he : e ∈ c.net) {m : RaftRequestVoteRequestMessage}
    (hm : e.msg = .requestVoteRequest m) (hs : e.src = n) : m.term ≠ t := by
  have hle := (h.request e he m hm).2.2.2.1
  rw [hs] at hle
  omega

theorem VoteInv.countP_isRequest_ahead (h : VoteInv c v) {t : Nat} (ht : (c.raft n).term < t)
    (d : Int) : c.net.countP (isRequest n d t) = 0 :=
  countP_isRequest_eq_zero (fun _ he _ hm => h.term_of_request ht he hm) d

theorem VoteInv.countP_isGrant_ahead (h : VoteInv c v) {t : Nat} (ht : (c.raft n).term < t) :
    c.net.countP (isGrant n t) = 0 := by
  apply countP_isGrant_eq_zero
  intro e he m hm hg hd
  obtain ⟨_, hs, hv⟩ := h.granted e he m hm hg
  have hst := (h.stood e.src hs _ _ hv).2
  rw [hd] at hst
  omega

/-- The node keeps its term, its role and its vote. -/
theorem VoteInv.casts_same (h : VoteInv c v) (hn : n ∈ c.ids) (hs : Silent vs)
    (hid : r'.id = (c.raft n).id)
    (hpeers : r'.peers.map (·.id) = (c.raft n).peers.map (·.id))
    (hterm : r'.term = (c.raft n).term) (hrole : r'.role = (c.raft n).role)
    (hvote : r'.votedFor = (c.raft n).votedFor)
    (hcount : r'.role = .candidate →
      r'.voteCount + c.net.countP (isGrant n r'.term) ≤ votesFor c.ids v n r'.term) :
    Casts c v n r' vs := by
  have hrec : r'.votedFor ≠ -1 → v n r'.term = some r'.votedFor := by
    rw [hvote, hterm]
    exact h.voted hn
  have hmono : ∀ a t, votesFor c.ids v a t ≤ votesFor c.ids (recordVote v n r') a t :=
    fun a t => votesFor_mono fun b hb => record_mono (fun hv => .inr (hrec hv)) hb
  constructor
  case id => exact hid
  case peers => exact hpeers
  case term => exact Nat.le_of_eq hterm.symm
  case fresh => exact fun hv => .inr (hrec hv)
  case stood =>
    intro hv
    have hst := h.stood n hn _ _ (hrec hv)
    exact ⟨hst.1, fun _ => hst.2⟩
  case held =>
    intro hr hv
    rw [hrole] at hr
    rw [hterm, h.held n hn hr, heldVote, if_pos (hvote ▸ hv)]
  case leads =>
    rw [hrole, hvote, hterm]
    exact h.leads n hn
  case runs =>
    rw [hrole, hvote]
    exact h.runs n hn
  case request => exact fun e he m hm => absurd hm ((hs e he).1 m)
  case pending =>
    intro hv e he m hm hd ht hsrc
    have hreq := (h.request e he m hm).2.2.2.2
    rw [hd, ht, hrec hv] at hreq
    exact hreq (congrArg some hsrc.symm)
  case once =>
    intro k d t
    rw [hs.countP_isRequest, Nat.add_zero]
    exact h.once k d t
  case granted =>
    intro e he m hm hg
    rw [(hs e he).2 m hm] at hg
    cases hg
  case counted =>
    intro hr
    rw [hs.countP_isGrant, Nat.add_zero]
    exact Nat.le_trans (hcount hr) (hmono n _)
  case counted_other =>
    intro a _ _ t
    rw [hs.countP_isGrant, Nat.add_zero]
    exact hmono a t
  case elected =>
    intro hp hq
    exact absurd (hrole.symm.trans hq) hp

/-- The node forgets its vote: it enters a new term, or it has just won. -/
theorem VoteInv.casts_forget (h : VoteInv c v) (hs : Silent vs)
    (hid : r'.id = (c.raft n).id)
    (hpeers : r'.peers.map (·.id) = (c.raft n).peers.map (·.id))
    (hterm : (c.raft n).term ≤ r'.term) (hvote : r'.votedFor = -1)
    (hrole : r'.role ≠ .candidate) (hheld : r'.role ≠ .leader → v n r'.term = none)
    (hleads : r'.role = .leader → v n r'.term = some n)
    (helected : r'.role = .leader → Quorum.Majority c.ids fun a => v a r'.term == some n) :
    Casts c v n r' vs := by
  constructor
  case id => exact hid
  case peers => exact hpeers
  case term => exact hterm
  case fresh => exact fun hv => absurd hvote hv
  case stood => exact fun hv => absurd hvote hv
  case held => exact fun hr _ => hheld hr
  case leads => exact fun hr => ⟨hvote, hleads hr⟩
  case runs => exact fun hr => absurd hr hrole
  case request => exact fun e he m hm => absurd hm ((hs e he).1 m)
  case pending => exact fun hv => absurd hvote hv
  case once =>
    intro k d t
    rw [hs.countP_isRequest, Nat.add_zero]
    exact h.once k d t
  case granted =>
    intro e he m hm hg
    rw [(hs e he).2 m hm] at hg
    cases hg
  case counted => exact fun hr => absurd hr hrole
  case counted_other =>
    intro a _ _ t
    rw [hs.countP_isGrant, recordVote_of_none hvote]
    exact Nat.le_refl _
  case elected => exact fun _ hr => helected hr

theorem VoteInv.casts_keep (h : VoteInv c v) (hn : n ∈ c.ids) (hs : Silent vs)
    (hb : r'.ballot = (c.raft n).ballot) : Casts c v n r' vs := by
  have hterm : r'.term = (c.raft n).term := congrArg Ballot.term hb
  have hrole : r'.role = (c.raft n).role := congrArg Ballot.role hb
  have hcount : r'.voteCount = (c.raft n).voteCount := congrArg Ballot.voteCount hb
  refine h.casts_same hn hs (congrArg Ballot.id hb) (congrArg Ballot.peerIds hb) hterm hrole
    (congrArg Ballot.votedFor hb) fun hr => ?_
  rw [hcount, hterm]
  exact h.counted n hn (hrole.symm.trans hr)

theorem VoteInv.casts_stepDown (h : VoteInv c v) (hn : n ∈ c.ids) (hs : Silent vs)
    (ht : (c.raft n).term < r'.term)
    (hb : r'.ballot =
      { (c.raft n).ballot with term := r'.term, role := .follower, votedFor := -1 }) :
    Casts c v n r' vs := by
  have hrole : r'.role = .follower := congrArg Ballot.role hb
  refine h.casts_forget hs (congrArg Ballot.id hb) (congrArg Ballot.peerIds hb)
    (Nat.le_of_lt ht) (congrArg Ballot.votedFor hb) ?_ (fun _ => h.fresh_term hn ht) ?_ ?_
  all_goals
    rw [hrole]
    exact nofun

theorem VoteInv.casts_observe (h : VoteInv c v) (hn : n ∈ c.ids) (hs : Silent vs) (t : Nat) :
    Casts c v n ((c.raft n).observe (-1) t) vs := by
  by_cases ht : t > (c.raft n).term
  · rw [observe_gt ht]
    exact h.casts_stepDown hn hs ht rfl
  · rw [observe_le ht]
    exact h.casts_keep hn hs rfl

theorem route_voteRequests (r : Raft) (n k : Int) :
    r.voteRequests.filterMap (route n k) =
      (r.peers.filter fun p => p.id ≠ r.id).map fun p =>
        { src := n, dst := p.id, msg := r.requestVoteTo p } := by
  rw [voteRequests, List.filterMap_map]
  exact congrFun List.filterMap_eq_map _

/-- A candidacy sends one request to each peer. -/
theorem countP_voteRequests_le (r : Raft) (n k d : Int) (t : Nat) (ps : List RaftPeer)
    (hp : (ps.map (·.id)).Nodup) :
    ((ps.filter fun p => p.id ≠ r.id).map fun p =>
      ({ src := n, dst := p.id, msg := r.requestVoteTo p } : Envelope)).countP
        (isRequest k d t) ≤ 1 := by
  have hcount : (ps.map (·.id)).count d ≤ 1 := List.nodup_iff_count_le_one.mp hp d
  rw [List.count_eq_countP, List.countP_map] at hcount
  rw [List.countP_map]
  refine Nat.le_trans ?_ hcount
  refine Nat.le_trans (List.Sublist.countP_le List.filter_sublist) ?_
  refine List.countP_mono_left fun p _ hreq => ?_
  simp only [Function.comp, isRequest, requestVoteTo, Bool.and_eq_true, beq_iff_eq] at hreq ⊢
  exact hreq.1.2

/-- The requests of a candidacy go to the other nodes. -/
theorem mem_voteRequests {r : Raft} (hid : r.id = n) {e : Envelope}
    (he : e ∈ r.toCandidate.voteRequests.filterMap (route n caller)) :
    ∃ p ∈ r.peers, p.id ≠ n ∧
      e = { src := n, dst := p.id, msg := r.toCandidate.requestVoteTo p } := by
  rw [route_voteRequests] at he
  obtain ⟨p, hp, rfl⟩ := List.mem_map.mp he
  obtain ⟨hp, hpn⟩ := List.mem_filter.mp hp
  have hpn' : p.id ≠ r.id := by simpa using hpn
  exact ⟨p, hp, hid ▸ hpn', rfl⟩

theorem countP_voteRequests_isGrant {r : Raft} (hid : r.id = n) (k : Int) (t : Nat) :
    (r.toCandidate.voteRequests.filterMap (route n caller)).countP (isGrant k t) = 0 := by
  apply countP_isGrant_eq_zero
  intro e he m hm
  obtain ⟨p, -, -, rfl⟩ := mem_voteRequests hid he
  cases hm

/-- The requests of a new candidacy are the first ones of their term. -/
theorem once_voteRequests (hid : (c.raft n).id = n)
    (hpeers : ((c.raft n).peers.map (·.id)).Nodup)
    (honce : ∀ k d t, c.net.countP (isRequest k d t) ≤ 1)
    (hahead : ∀ d, c.net.countP (isRequest n d ((c.raft n).term + 1)) = 0) (k d : Int) (t : Nat) :
    c.net.countP (isRequest k d t) +
      ((c.raft n).toCandidate.voteRequests.filterMap (route n caller)).countP
        (isRequest k d t) ≤ 1 := by
  by_cases hk : k = n ∧ t = (c.raft n).term + 1
  · obtain ⟨rfl, rfl⟩ := hk
    rw [hahead, route_voteRequests, Nat.zero_add]
    exact countP_voteRequests_le _ _ _ _ _ _ hpeers
  · have hzero : ((c.raft n).toCandidate.voteRequests.filterMap (route n caller)).countP
        (isRequest k d t) = 0 := by
      apply countP_isRequest_eq_zero
      intro e he m hm hs ht
      obtain ⟨p, -, -, rfl⟩ := mem_voteRequests hid he
      obtain rfl := RaftMessage.requestVoteRequest.inj hm
      exact hk ⟨hs.symm, ht.symm⟩
    rw [hzero]
    exact honce k d t

theorem VoteInv.casts_stand (h : VoteInv c v) (hn : n ∈ c.ids) :
    Casts c v n (c.raft n).toCandidate
      ((c.raft n).toCandidate.voteRequests.filterMap (route n caller)) := by
  have hid : (c.raft n).id = n := h.ident n hn
  have hne : n ≠ -1 := h.members.ne_none hn
  have hvote : (c.raft n).toCandidate.votedFor = n := hid
  have hvne : (c.raft n).toCandidate.votedFor ≠ -1 := fun hv => hne (hid.symm.trans hv)
  have hterm : (c.raft n).toCandidate.term = (c.raft n).term + 1 := rfl
  have hahead : (c.raft n).term < (c.raft n).term + 1 := Nat.lt_succ_self _
  have hnone : v n ((c.raft n).term + 1) = none := h.fresh_term hn hahead
  have hf : (c.raft n).toCandidate.votedFor ≠ -1 →
      v n (c.raft n).toCandidate.term = none ∨
        v n (c.raft n).toCandidate.term = some (c.raft n).toCandidate.votedFor :=
    fun _ => .inl hnone
  constructor
  case id => rfl
  case peers => rfl
  case term => exact Nat.le_succ _
  case fresh => exact hf
  case stood =>
    intro _
    rw [hvote]
    exact ⟨hn, fun hself => absurd rfl hself⟩
  case held => exact fun _ hv => absurd hv hvne
  case leads => exact nofun
  case runs => exact fun _ => hvote
  case request =>
    intro e he m hm
    obtain ⟨p, hp, hpn, rfl⟩ := mem_voteRequests hid he
    obtain rfl := RaftMessage.requestVoteRequest.inj hm
    have hpid : p.id ∈ c.ids := by
      rw [← h.peers n hn]
      exact List.mem_map_of_mem hp
    refine ⟨hpid, rfl, hid, Nat.le_refl _, ?_⟩
    show recordVote v n (c.raft n).toCandidate p.id ((c.raft n).term + 1) ≠ some n
    rw [recordVote_other fun hr => hpn hr.1]
    intro hv
    have hst := (h.stood p.id hpid _ n hv).2
    omega
  case pending =>
    intro _ e he m hm _ ht hs
    exact h.term_of_request hahead he hm (hs.trans hvote) ht
  case once =>
    refine once_voteRequests hid ?_ h.once (h.countP_isRequest_ahead hahead)
    rw [h.peers n hn]
    exact h.members.nodup
  case granted =>
    intro e he m hm _
    obtain ⟨p, -, -, rfl⟩ := mem_voteRequests hid he
    cases hm
  case counted =>
    intro _
    have hself : recordVote v n (c.raft n).toCandidate n ((c.raft n).term + 1) = some n := by
      rw [← hterm, recordVote_self hvne, hvote]
    have hpos : 0 < votesFor c.ids (recordVote v n (c.raft n).toCandidate) n
        ((c.raft n).term + 1) :=
      List.countP_pos_iff.mpr ⟨n, hn, by rw [hself]; exact beq_self_eq_true _⟩
    rw [hterm, h.countP_isGrant_ahead hahead, countP_voteRequests_isGrant hid]
    exact hpos
  case counted_other =>
    intro a _ _ t
    rw [countP_voteRequests_isGrant hid, Nat.add_zero]
    exact votesFor_mono fun b hb => record_mono hf hb
  case elected => exact fun _ => nofun

/-- A node that grants a request of its own term is a follower that has not voted. -/
theorem VoteInv.unvoted_of_grant (h : VoteInv c v) (hn : n ∈ c.ids)
    {m : RaftRequestVoteRequestMessage}
    (hin : InHand c v n caller (.message (.requestVoteRequest m)))
    (hlead : (c.raft n).role = .leader → m.term ≠ (c.raft n).term)
    (ht : (c.raft n).term ≤ m.term)
    (hv : ((c.raft n).observe (-1) m.term).votedFor = -1 ∨
      ((c.raft n).observe (-1) m.term).votedFor = m.fromId) :
    v n m.term = none := by
  obtain ⟨hcaller, hfrom, _, hnew, _⟩ := hin
  by_cases hgt : m.term > (c.raft n).term
  · exact h.fresh_term hn hgt
  · have heq : m.term = (c.raft n).term := Nat.le_antisymm (Nat.le_of_not_gt hgt) ht
    rw [observe_le hgt] at hv
    rcases hv with hv | hv
    · rw [heq, h.held n hn (fun hr => hlead hr heq), heldVote, if_pos hv]
    · have hcne : caller ≠ -1 := h.members.ne_none hcaller
      have hrec := h.voted hn (by rw [hv, hfrom]; exact hcne)
      rw [hv, hfrom, ← heq] at hrec
      exact absurd hrec hnew

/-- It is a follower: a candidate has voted for itself, and a leader is excluded. -/
theorem VoteInv.follower_of_grant (h : VoteInv c v) (hn : n ∈ c.ids)
    {m : RaftRequestVoteRequestMessage}
    (hin : InHand c v n caller (.message (.requestVoteRequest m)))
    (hlead : (c.raft n).role = .leader → m.term ≠ (c.raft n).term)
    (ht : (c.raft n).term ≤ m.term)
    (hv : ((c.raft n).observe (-1) m.term).votedFor = -1 ∨
      ((c.raft n).observe (-1) m.term).votedFor = m.fromId) :
    ((c.raft n).observe (-1) m.term).role = .follower := by
  obtain ⟨hcaller, hfrom, _, hnew, _⟩ := hin
  by_cases hgt : m.term > (c.raft n).term
  · rw [observe_gt hgt]
    rfl
  · have heq : m.term = (c.raft n).term := Nat.le_antisymm (Nat.le_of_not_gt hgt) ht
    rw [observe_le hgt] at hv ⊢
    cases hr : (c.raft n).role with
    | follower => rfl
    | leader => exact absurd heq (hlead hr)
    | candidate =>
      have hself := h.runs n hn hr
      have hnne : n ≠ -1 := h.members.ne_none hn
      rcases hv with hv | hv
      · exact absurd (hself.symm.trans hv) hnne
      · have hrec := h.voted hn (by rw [hself]; exact hnne)
        rw [hv, hfrom, ← heq] at hrec
        exact absurd hrec hnew

theorem term_of_grant {r : Raft} {m : RaftRequestVoteRequestMessage} (ht : r.term ≤ m.term) :
    (r.observe (-1) m.term).term = m.term := by
  by_cases hgt : m.term > r.term
  · rw [observe_gt hgt]
    rfl
  · rw [observe_le hgt]
    exact Nat.le_antisymm ht (Nat.le_of_not_gt hgt)

/-- A granted vote.  The request in hand is the only one of its candidate and term to
this node, which is why the candidate counts the vote once. -/
theorem VoteInv.casts_grant (h : VoteInv c v) (hn : n ∈ c.ids)
    {m : RaftRequestVoteRequestMessage}
    (hin : InHand c v n caller (.message (.requestVoteRequest m)))
    (hlead : (c.raft n).role = .leader → m.term ≠ (c.raft n).term)
    (ht : (c.raft n).term ≤ m.term)
    (hv : ((c.raft n).observe (-1) m.term).votedFor = -1 ∨
      ((c.raft n).observe (-1) m.term).votedFor = m.fromId) :
    Casts c v n (((c.raft n).observe (-1) m.term).setVotedFor m.fromId)
      [{ src := n
         dst := caller
         msg := .requestVoteResponse { seq := m.seq, term := m.term, voteGranted := true } }] := by
  have hnone : v n m.term = none := h.unvoted_of_grant hn hin hlead ht hv
  have hrole : (((c.raft n).observe (-1) m.term).setVotedFor m.fromId).role = .follower :=
    h.follower_of_grant hn hin hlead ht hv
  obtain ⟨hcaller, hfrom, hreach, hnew, hzero⟩ := hin
  have hcne : caller ≠ -1 := h.members.ne_none hcaller
  have hterm : (((c.raft n).observe (-1) m.term).setVotedFor m.fromId).term = m.term :=
    term_of_grant ht
  have hvote : (((c.raft n).observe (-1) m.term).setVotedFor m.fromId).votedFor = caller := hfrom
  have hself : recordVote v n (((c.raft n).observe (-1) m.term).setVotedFor m.fromId) n m.term =
      some caller := by
    have hs := recordVote_self (v := v) (n := n)
      (r := ((c.raft n).observe (-1) m.term).setVotedFor m.fromId) (by rw [hvote]; exact hcne)
    rw [hterm, hvote] at hs
    exact hs
  have hmono : ∀ {a k t}, v a t = some k →
      recordVote v n (((c.raft n).observe (-1) m.term).setVotedFor m.fromId) a t = some k :=
    fun hb => record_mono (fun _ => .inl (hterm.symm ▸ hnone)) hb
  constructor
  case id => exact observe_id (-1) m.term
  case peers => exact congrArg (List.map (·.id)) (observe_peers (-1) m.term)
  case term =>
    rw [hterm]
    exact ht
  case fresh =>
    intro _
    rw [hterm]
    exact .inl hnone
  case stood =>
    intro _
    rw [hvote, hterm]
    exact ⟨hcaller, fun _ => hreach⟩
  case held => exact fun _ hv => absurd (hvote.symm.trans hv) hcne
  case leads =>
    rw [hrole]
    exact nofun
  case runs =>
    rw [hrole]
    exact nofun
  case request =>
    intro e he m' hm'
    obtain rfl := List.mem_singleton.mp he
    cases hm'
  case pending =>
    intro _ e he m' hm' hd hmt hs
    exact absurd (hs.trans hvote) (isRequest_ne hzero he hm' hd (hmt.trans hterm))
  case once =>
    intro k d t
    rw [countP_isRequest_answer, Nat.add_zero]
    exact h.once k d t
  case granted =>
    intro e he m' hm' _
    obtain rfl := List.mem_singleton.mp he
    obtain rfl := RaftMessage.requestVoteResponse.inj hm'
    exact ⟨hcaller, rfl, hself⟩
  case counted =>
    rw [hrole]
    exact nofun
  case counted_other =>
    intro a _ _ t
    rw [List.countP_singleton]
    split
    next hg =>
      simp only [isGrant, Bool.and_eq_true, beq_iff_eq] at hg
      obtain ⟨⟨rfl, rfl⟩, -⟩ := hg
      -- the new vote is one of a member that had not voted for this candidate
      refine Quorum.countP_lt_of_new hn (fun b _ hb => ?_) ?_ ?_
      · rw [beq_iff_eq] at hb ⊢
        exact hmono hb
      · rw [hnone]
        rfl
      · rw [hself]
        exact beq_self_eq_true _
    next => exact votesFor_mono fun b hb => hmono hb
  case elected =>
    rw [hrole]
    exact fun _ => nofun

theorem VoteInv.casts_count (h : VoteInv c v) (hn : n ∈ c.ids)
    {m : RaftRequestVoteResponseMessage}
    (hin : InHand c v n caller (.message (.requestVoteResponse m)))
    (hr : (c.raft n).role = .candidate) (ht : m.term = (c.raft n).term)
    (hg : m.voteGranted = true) : Casts c v n (c.raft n).countVote [] := by
  refine h.casts_same hn silent_nil rfl rfl rfl rfl rfl fun _ => ?_
  have hle := hin hg hr ht
  show (c.raft n).voteCount + 1 + c.net.countP (isGrant n (c.raft n).term) ≤
    votesFor c.ids v n (c.raft n).term
  omega

theorem VoteInv.casts_elect (h : VoteInv c v) (hn : n ∈ c.ids)
    {m : RaftRequestVoteResponseMessage}
    (hin : InHand c v n caller (.message (.requestVoteResponse m)))
    (hr : (c.raft n).role = .candidate) (ht : m.term = (c.raft n).term)
    (hg : m.voteGranted = true)
    (hc : (c.raft n).voteCount + 1 > (c.raft n).peers.length / 2)
    (hb : r'.ballot =
      { (c.raft n).ballot with role := .leader, votedFor := -1, voteCount := 0 }) :
    Casts c v n r' [] := by
  have hterm : r'.term = (c.raft n).term := congrArg Ballot.term hb
  have hrole : r'.role = .leader := congrArg Ballot.role hb
  have hself : (c.raft n).votedFor = n := h.runs n hn hr
  refine h.casts_forget silent_nil (congrArg Ballot.id hb) (congrArg Ballot.peerIds hb)
    (Nat.le_of_eq hterm.symm) (congrArg Ballot.votedFor hb) ?_ (fun hl => absurd hrole hl)
    (fun _ => ?_) (fun _ => ?_)
  · rw [hrole]
    exact nofun
  · have hv := h.voted hn (by rw [hself]; exact h.members.ne_none hn)
    rw [hterm, hv, hself]
  · have hle := hin hg hr ht
    have hlen : (c.raft n).peers.length = c.ids.length := by
      rw [← h.peers n hn, List.length_map]
    rw [hterm]
    show c.ids.length / 2 < votesFor c.ids v n (c.raft n).term
    rw [hlen] at hc
    omega

theorem VoteInv.casts (h : VoteInv c v) (hn : n ∈ c.ids) (hin : InHand c v n caller i)
    (hg : LeaderKeepsVote c n i) {ms : List RaftMessage} (hb : BallotStep (c.raft n) i r' ms) :
    Casts c v n r' (ms.filterMap (route n caller)) := by
  cases hb with
  | keep hb => exact h.casts_keep hn silent_nil hb
  | stepDown ht hb => exact h.casts_stepDown hn silent_nil ht hb
  | stand hr => exact h.casts_stand hn
  | refuse hr =>
    subst hr
    exact h.casts_observe hn (silent_refusal rfl) _
  | @grant m ht hv hl =>
    refine h.casts_grant hn hin (fun hr hmt => ?_) ht hv
    rw [hg hr hmt] at hl
    cases hl
  | count hr ht hgr hc => exact h.casts_count hn hin hr ht hgr
  | elect hr ht hgr hc hb => exact h.casts_elect hn hin hr ht hgr hc hb

theorem VoteInv.act_live (h : VoteInv c v) (hl : c.Live n) (hin : InHand c v n caller i)
    (hg : LeaderKeepsVote c n i) :
    VoteInv (c.act n caller i) (recordVote v n ((c.raft n).react i).raft) := by
  refine h.acts hl.1 (acts_act _ _ hl) ?_
  rw [filter_route]
  exact h.casts hl.1 hin hg (react_ballot (c.raft n) i)

theorem VoteInv.act (h : VoteInv c v) (hin : InHand c v n caller i)
    (hg : LeaderKeepsVote c n i) : ∃ v', VoteInv (c.act n caller i) v' := by
  by_cases hl : c.Live n
  · exact ⟨_, h.act_live hl hin hg⟩
  · rw [act_dead hl]
    exact ⟨v, h⟩

end Ballots

/-! ## Runs -/

theorem VoteInv.clerk (h : VoteInv c v) {b : Bool} {e : Envelope} {m : RaftMessage}
    (hm : clerkAnswer b e.msg = some m) : VoteInv (c.post [{ e with msg := m }]) v :=
  h.post (silent_clerk hm)

theorem VoteInv.rpcFailure (h : VoteInv c v) (caller callee : Int) (kind : RpcKind) :
    VoteInv (c.post [{ src := callee, dst := caller, msg := kind.defaultResponse callee }])
      v :=
  h.post (silent_default callee kind)

theorem VoteInv.step (h : VoteInv c v) {a : Action} {c' : Cluster}
    (hg : c.Obeys LeaderKeepsVote a) (hs : c.step a = some c') : ∃ v', VoteInv c' v' := by
  cases moves_of_step hs with
  | @timer a n i hi =>
    refine h.act ?_ ?_ <;>
    · cases i with
      | message m => exact absurd rfl (hi m)
      | _ => trivial
  | client => exact h.act trivial trivial
  | @deliver k e hk he =>
    by_cases hl : c.Live e.dst
    · have hok : LeaderKeepsVote c e.dst (.message e.msg) := obeys_deliver hg hk he hl
      exact (h.take k).act (h.inHand hk hl.1) hok
    · rw [act_dead (take_live.not.mpr hl)]
      exact ⟨v, h.take k⟩
  | clerk hk hm => exact ⟨v, (h.take _).clerk hm⟩
  | lose => exact ⟨v, h.take _⟩
  | rpcFailure => exact ⟨v, h.rpcFailure _ _ _⟩

theorem Reaches.voteInv {ids : List Int} (hm : Membership ids)
    (hr : Reaches LeaderKeepsVote ids c) : ∃ v, VoteInv c v := by
  obtain ⟨as, hr⟩ := hr
  refine hr.invariant (I := fun c => ∃ v, VoteInv c v) ?_ ⟨_, voteInv_init hm⟩
  rintro s a t ⟨v, hv⟩ hok hs
  exact hv.step hok hs

/-- Election Safety, in every run in which no leader grants a vote of its own term. -/
theorem electionSafety_of_leaderKeepsVote (ids : List Int) (c : Cluster)
    (hm : Membership ids) (hr : Reaches LeaderKeepsVote ids c) : c.ElectionSafety := by
  obtain ⟨v, hv⟩ := hr.voteInv hm
  exact hv.electionSafety

/-- Nodes 0 and 1 stand in term 1, node 2 votes for 0, which wins.  The request of 1
reaches 0 only now, and 0 gives away the vote it used for itself. -/
def twoCandidates : List Action :=
  [.electionTimeout 0, .electionTimeout 1, .deliver 1, .deliver 3, .deliver 1, .deliver 4]

theorem two_leaders :
    ¬ ∀ (ids : List Int) (c : Cluster), Membership ids → Reaches anyStep ids c →
      c.ElectionSafety := by
  intro h
  obtain ⟨c, hr, hc⟩ := Reaches.of_exec anyStep [0, 1, 2]
    twoCandidates (fun c => !decide c.ElectionSafety) (by decide +kernel)
  have hs := h [0, 1, 2] c ⟨by decide, by decide⟩ hr
  simp [hs] at hc

/-- The same race, with the late request lost. -/
theorem electionSafety_three :
    ∃ c, Reaches LeaderKeepsVote [0, 1, 2] c ∧ (∃ s ∈ c.history, s.BecomesLeader) ∧
      c.ElectionSafety := by
  obtain ⟨c, hr, hc⟩ := Reaches.of_exec LeaderKeepsVote [0, 1, 2]
    ([.electionTimeout 0, .electionTimeout 1, .deliver 1, .deliver 3, .lose 1])
    (fun c => decide (∃ s ∈ c.history, s.BecomesLeader)) (by decide +kernel)
  exact ⟨c, hr, of_decide_eq_true hc,
    electionSafety_of_leaderKeepsVote [0, 1, 2] c ⟨by decide, by decide⟩ hr⟩

end Cluster

end WWRaftKV
