/-
The quorum behind a leader.

A candidate counts answers without looking at who sent them, so that a majority has
granted their votes has to come from the messages: one candidacy sends one request to
every other node, the answer carries the term of the request, and a node stands at
most once in a term.  All of this holds in every run.  A vote is read off the history
here, and one node may have given two of them in one term (`two_leaders`).
-/
import WWRaftKV.Cluster.Election

namespace WWRaftKV

/-- A granted vote of this term. -/
def RaftMessage.grants (t : Nat) : RaftMessage → Bool
  | .requestVoteResponse m => m.term == t && m.voteGranted
  | _ => false

/-- The node has become a candidate in this step. -/
def CoreStep.stands (s : CoreStep) : Bool :=
  decide (s.pre.term < s.post.term) && s.post.role == .candidate

/-- In this step the node gives its vote for term `t` to `k`: it answers that the vote
is granted, or it stands itself. -/
def CoreStep.votes (s : CoreStep) (k : Int) (t : Nat) : Bool :=
  s.post.votedFor == k && s.post.term == t && (s.pushed.any (RaftMessage.grants t) || s.stands)

/-- In one of these steps node `n` has given its vote for term `t` to `k`. -/
def hasVoted (h : List CoreStep) (k : Int) (t : Nat) (n : Int) : Bool :=
  h.any fun s => s.node == n && s.votes k t

theorem hasVoted_append (h : List CoreStep) (s : CoreStep) (k : Int) (t : Nat) (n : Int) :
    hasVoted (h ++ [s]) k t n = (hasVoted h k t n || (s.node == n && s.votes k t)) := by
  simp [hasVoted, List.any_append]

namespace Cluster

/-- Whoever becomes leader of a term has the votes of a majority of the nodes for this
term. -/
def ElectedByMajority (c : Cluster) : Prop :=
  ∀ h s h', c.history = h ++ s :: h' → s.BecomesLeader →
    Quorum.Majority c.ids (hasVoted h s.node s.post.term)

/-- A candidate has counted no more votes than nodes have given it for its term. -/
def CountsOwnVotes (c : Cluster) : Prop :=
  ∀ n ∈ c.ids, (c.raft n).role = .candidate →
    (c.raft n).voteCount ≤ c.ids.countP (hasVoted c.history n (c.raft n).term)

/-! ## The invariant -/

structure QuorumInv (c : Cluster) : Prop where
  nodup : c.ids.Nodup
  ident : ∀ n ∈ c.ids, (c.raft n).id = n
  peers : ∀ n ∈ c.ids, (c.raft n).peers.map (·.id) = c.ids
  /-- A node has votes for the terms it has reached only. -/
  stood : ∀ k t n, hasVoted c.history k t n = true → t ≤ (c.raft k).term
  /-- A vote request in flight has not been answered yet, and there is no second
  copy. -/
  request : ∀ e ∈ c.net, ∀ m, e.msg = .requestVoteRequest m →
    m.fromId = e.src ∧ m.term ≤ (c.raft e.src).term ∧
      hasVoted c.history e.src m.term e.dst = false
  once : ∀ k n t, c.net.countP (isRequest k n t) ≤ 1
  granted : ∀ e ∈ c.net, ∀ m, e.msg = .requestVoteResponse m → m.voteGranted = true →
    hasVoted c.history e.dst m.term e.src = true
  /-- The votes counted and those on their way come from different members. -/
  counted : ∀ n ∈ c.ids, (c.raft n).role = .candidate →
    (c.raft n).voteCount + c.net.countP (isGrant n (c.raft n).term) ≤
      c.ids.countP (hasVoted c.history n (c.raft n).term)
  elected : c.ElectedByMajority

theorem QuorumInv.countsOwnVotes {c : Cluster} (h : QuorumInv c) : c.CountsOwnVotes := by
  intro n hn hr
  have hle := h.counted n hn hr
  omega

theorem quorumInv_init {ids : List Int} (h : ids.Nodup) : QuorumInv (init ids) where
  nodup := h
  ident := fun _ _ => rfl
  peers := fun n _ => by
    show ((ids.map fun i => ({ id := i } : RaftPeer)).map (·.id)) = ids
    rw [List.map_map]
    exact List.map_id ids
  stood := fun _ _ _ hv => nomatch hv
  request := by simp [init]
  once := by simp [init]
  granted := by simp [init]
  counted := fun n _ hr => by cases hr
  elected := fun h s h' hh => by simp [init] at hh

/-! ## Changes of the bag -/

/-- What the message in hand says once it has left the bag. -/
def VoteInHand (c : Cluster) (n caller : Int) : Input → Prop
  | .message (.requestVoteRequest m) =>
    n ∈ c.ids ∧ m.fromId = caller ∧ m.term ≤ (c.raft caller).term ∧
      hasVoted c.history caller m.term n = false ∧
      c.net.countP (isRequest caller n m.term) = 0
  | .message (.requestVoteResponse m) =>
    m.voteGranted = true → (c.raft n).role = .candidate → m.term = (c.raft n).term →
      (c.raft n).voteCount + c.net.countP (isGrant n (c.raft n).term) + 1 ≤
        c.ids.countP (hasVoted c.history n (c.raft n).term)
  | _ => True

variable {c : Cluster}

theorem QuorumInv.take (h : QuorumInv c) (k : Nat) : QuorumInv (c.take k) where
  nodup := h.nodup
  ident := h.ident
  peers := h.peers
  stood := h.stood
  request := fun e he m hm => h.request e (mem_of_mem_take he) m hm
  once := fun a n t => Nat.le_trans (countP_take_le c k _) (h.once a n t)
  granted := fun e he m hm hg => h.granted e (mem_of_mem_take he) m hm hg
  counted := fun n hn hr => by
    have hle := countP_take_le c k (isGrant n (c.raft n).term)
    have hc := h.counted n hn hr
    show (c.raft n).voteCount + (c.take k).net.countP (isGrant n (c.raft n).term) ≤
      c.ids.countP (hasVoted c.history n (c.raft n).term)
    omega
  elected := h.elected

theorem QuorumInv.inHand (h : QuorumInv c) {k : Nat} {e : Envelope}
    (hk : c.net[k]? = some e) (hd : e.dst ∈ c.ids) :
    VoteInHand (c.take k) e.dst e.src (.message e.msg) := by
  have hmem : e ∈ c.net := List.mem_of_getElem? hk
  cases hmsg : e.msg with
  | requestVoteRequest m =>
    obtain ⟨hfrom, hterm, hv⟩ := h.request e hmem m hmsg
    have hcount := countP_take hk (isRequest_self hmsg)
    have honce := h.once e.src e.dst m.term
    exact ⟨hd, hfrom, hterm, hv, by omega⟩
  | requestVoteResponse m =>
    intro hg hr ht
    have hc := h.counted e.dst hd hr
    have hcount := countP_take hk (isGrant_self hmsg hg)
    rw [show m.term = (c.raft e.dst).term from ht] at hcount
    show (c.raft e.dst).voteCount + _ + 1 ≤
      c.ids.countP (hasVoted c.history e.dst (c.raft e.dst).term)
    rw [take_raft]
    omega
  | _ => trivial

/-- A message that is no vote request and no granted vote may enter the bag. -/
theorem QuorumInv.post (h : QuorumInv c) {es : List Envelope} (hs : Silent es) :
    QuorumInv (c.post es) where
  nodup := h.nodup
  ident := h.ident
  peers := h.peers
  stood := h.stood
  request := fun x hx m hm => by
    rcases List.mem_append.mp hx with hx | hx
    · exact h.request x hx m hm
    · exact absurd hm ((hs x hx).1 m)
  once := fun a n t => by
    show (c.net ++ es).countP _ ≤ 1
    rw [List.countP_append, hs.countP_isRequest]
    exact h.once a n t
  granted := fun x hx m hm hg => by
    rcases List.mem_append.mp hx with hx | hx
    · exact h.granted x hx m hm hg
    · rw [(hs x hx).2 m hm] at hg
      cases hg
  counted := fun n hn hr => by
    show (c.raft n).voteCount + (c.net ++ es).countP (isGrant n (c.raft n).term) ≤
      c.ids.countP (hasVoted c.history n (c.raft n).term)
    rw [List.countP_append, hs.countP_isGrant]
    exact h.counted n hn hr
  elected := h.elected

/-! ## A step of a core -/

theorem hasVoted_mono {h : List CoreStep} {k n : Int} {t : Nat} (s : CoreStep)
    (hv : hasVoted h k t n = true) : hasVoted (h ++ [s]) k t n = true := by
  rw [hasVoted_append, hv]
  rfl

theorem hasVoted_self {h : List CoreStep} {s : CoreStep} {k : Int} {t : Nat}
    (hv : s.votes k t = true) : hasVoted (h ++ [s]) k t s.node = true := by
  rw [hasVoted_append, hv, beq_self_eq_true, Bool.true_and, Bool.or_true]

theorem countP_hasVoted_mono (ids : List Int) (h : List CoreStep) (s : CoreStep) (k : Int)
    (t : Nat) : ids.countP (hasVoted h k t) ≤ ids.countP (hasVoted (h ++ [s]) k t) :=
  List.countP_mono_left fun _ _ hv => hasVoted_mono s hv

/-- What has to be checked about a step of a core that puts the vote messages `vs` into
the bag. -/
structure Tallies (c : Cluster) (s : CoreStep) (vs : List Envelope) : Prop where
  id : s.post.id = s.pre.id
  peers : s.post.peers.map (·.id) = s.pre.peers.map (·.id)
  term : s.pre.term ≤ s.post.term
  stood : ∀ k t, s.votes k t = true → k ≠ s.node → t ≤ (c.raft k).term
  request : ∀ e ∈ vs, ∀ m, e.msg = .requestVoteRequest m →
    m.fromId = e.src ∧ e.src = s.node ∧ e.dst ≠ s.node ∧ m.term ≤ s.post.term ∧
      hasVoted c.history e.src m.term e.dst = false
  pending : ∀ e ∈ c.net, ∀ m, e.msg = .requestVoteRequest m → e.dst = s.node →
    s.votes e.src m.term = false
  once : ∀ k d t, c.net.countP (isRequest k d t) + vs.countP (isRequest k d t) ≤ 1
  granted : ∀ e ∈ vs, ∀ m, e.msg = .requestVoteResponse m → m.voteGranted = true →
    e.src = s.node ∧ s.votes e.dst m.term = true
  counted : s.post.role = .candidate →
    s.post.voteCount + (c.net.countP (isGrant s.node s.post.term) +
      vs.countP (isGrant s.node s.post.term)) ≤
        c.ids.countP (hasVoted (c.history ++ [s]) s.node s.post.term)
  counted_other : ∀ a ∈ c.ids, a ≠ s.node → ∀ t,
    c.ids.countP (hasVoted c.history a t) + vs.countP (isGrant a t) ≤
      c.ids.countP (hasVoted (c.history ++ [s]) a t)
  elected : s.BecomesLeader →
    Quorum.Majority c.ids (hasVoted c.history s.node s.post.term)

/-- A step in a run that has grown by one step. -/
theorem split_append {α : Type} {xs h h' : List α} {x s : α}
    (heq : xs ++ [x] = h ++ s :: h') : (h = xs ∧ s = x) ∨ ∃ h'', xs = h ++ s :: h'' := by
  rcases List.eq_nil_or_concat h' with rfl | ⟨h'', y, rfl⟩
  · obtain ⟨rfl, hs⟩ := List.append_inj' heq rfl
    exact .inl ⟨rfl, (List.singleton_inj.mp hs).symm⟩
  · rw [List.concat_eq_append, ← List.cons_append, ← List.append_assoc] at heq
    exact .inr ⟨h'', (List.append_inj' heq rfl).1⟩

/-- The step lemma of the invariant. -/
theorem QuorumInv.acts (h : QuorumInv c) {n : Int} {r' : Raft} {ms : List RaftMessage}
    {new : List Envelope} {c' : Cluster} (hn : n ∈ c.ids) (ha : c.Acts n r' ms new c')
    (ht : Tallies c { node := n, pre := c.raft n, post := r', pushed := ms }
      (new.filter fun e => e.msg.isVote)) : QuorumInv c' := by
  have hterm := ha.raft_term ht.term
  have hnew : ∀ e ∈ new, e.msg.isVote = true → e ∈ new.filter fun e => e.msg.isVote :=
    fun e he hv => List.mem_filter.mpr ⟨he, hv⟩
  constructor
  case nodup => rw [ha.ids]; exact h.nodup
  case ident =>
    exact ha.forall_raft (P := fun a r => r.id = a) (ht.id.trans (h.ident n hn))
      fun a ha' _ => h.ident a ha'
  case peers =>
    rw [ha.ids]
    have hp := ha.forall_raft (P := fun _ r => r.peers.map (·.id) = c.ids)
      (ht.peers.trans (h.peers n hn)) fun a ha' _ => h.peers a ha'
    rw [ha.ids] at hp
    exact hp
  case stood =>
    intro k t a hv
    rw [ha.history, hasVoted_append, Bool.or_eq_true] at hv
    rcases hv with hv | hv
    · exact Nat.le_trans (h.stood k t a hv) (hterm k)
    · have hv := (Bool.and_eq_true_iff.mp hv).2
      by_cases hk : k = n
      · simp only [CoreStep.votes, Bool.and_eq_true, beq_iff_eq] at hv
        rw [hk, ha.self, ← hv.1.2]
      · exact Nat.le_trans (ht.stood k t hv hk) (hterm k)
  case request =>
    intro e he m hm
    rw [ha.history, hasVoted_append]
    rcases ha.mem_net he with he | he
    · obtain ⟨hf, hle, hv⟩ := h.request e he m hm
      refine ⟨hf, Nat.le_trans hle (hterm _), ?_⟩
      rw [hv, Bool.false_or, Bool.and_eq_false_iff]
      by_cases hd : e.dst = n
      · exact .inr (ht.pending e he m hm hd)
      · exact .inl (beq_false_of_ne fun hn' => hd hn'.symm)
    · obtain ⟨hf, hs, hd, hle, hv⟩ := ht.request e (hnew e he (by rw [hm]; rfl)) m hm
      refine ⟨hf, ?_, ?_⟩
      · rw [hs, ha.self]
        exact hle
      · rw [hv, Bool.false_or, beq_false_of_ne fun hn' => hd hn'.symm, Bool.false_and]
  case once =>
    intro k d t
    rw [ha.net, List.countP_append, countP_votes isRequest_votes new]
    exact ht.once k d t
  case granted =>
    intro e he m hm hg
    rw [ha.history]
    rcases ha.mem_net he with he | he
    · exact hasVoted_mono _ (h.granted e he m hm hg)
    · obtain ⟨hs, hv⟩ := ht.granted e (hnew e he (by rw [hm]; rfl)) m hm hg
      rw [hs]
      exact hasVoted_self hv
  case counted =>
    let s : CoreStep := { node := n, pre := c.raft n, post := r', pushed := ms }
    have hother : ∀ a ∈ c.ids, a ≠ n → (c.raft a).role = .candidate →
        (c.raft a).voteCount + c.net.countP (isGrant a (c.raft a).term) +
          (new.filter fun e => e.msg.isVote).countP (isGrant a (c.raft a).term) ≤
            c.ids.countP (hasVoted (c.history ++ [s]) a (c.raft a).term) := by
      intro a ha' hne hr
      have hold := h.counted a ha' hr
      have hmore : _ ≤ c.ids.countP (hasVoted (c.history ++ [s]) a (c.raft a).term) :=
        ht.counted_other a ha' hne (c.raft a).term
      omega
    have hall := ha.counted (f := fun a t => c.ids.countP (hasVoted (c.history ++ [s]) a t))
      ht.counted hother
    rw [ha.ids] at hall ⊢
    rw [ha.history]
    exact hall
  case elected =>
    intro p s p' heq hl
    rw [ha.history] at heq
    rw [ha.ids]
    rcases split_append heq with ⟨rfl, rfl⟩ | ⟨q, hq⟩
    · exact ht.elected hl
    · exact h.elected p s q hq hl

/-! ## Every step of a core tallies -/

section Ballots

open Raft

variable {n caller : Int} {i : Input} {s : CoreStep} {vs : List Envelope}

theorem grants_isVote {t : Nat} {m : RaftMessage} (h : m.grants t = true) : m.isVote = true := by
  cases m <;> first | rfl | cases h

theorem any_grants (t : Nat) (ms : List RaftMessage) :
    ms.any (RaftMessage.grants t) = (ms.filter RaftMessage.isVote).any (RaftMessage.grants t) := by
  induction ms with
  | nil => rfl
  | cons m ms ih =>
    rw [List.any_cons, List.filter_cons, ih]
    by_cases hm : m.isVote = true
    · rw [if_pos hm, List.any_cons]
    · have hg : m.grants t = false := by
        simpa using fun hg => hm (grants_isVote hg)
      rw [if_neg hm, hg, Bool.false_or]

theorem votes_false (hg : ∀ t, s.pushed.any (RaftMessage.grants t) = false)
    (hs : s.stands = false) (k : Int) (t : Nat) : s.votes k t = false := by
  rw [CoreStep.votes, hg, hs, Bool.or_false, Bool.and_false]

theorem stands_false_of_term (ht : s.post.term = s.pre.term) : s.stands = false := by
  simp [CoreStep.stands, ht]

theorem stands_false_of_role (hr : s.post.role = .follower) : s.stands = false := by
  simp [CoreStep.stands, hr]

/-- The node gives no vote and asks for none. -/
theorem QuorumInv.tallies_quiet (h : QuorumInv c) (hs : Silent vs)
    (hid : s.post.id = s.pre.id)
    (hpeers : s.post.peers.map (·.id) = s.pre.peers.map (·.id))
    (hterm : s.pre.term ≤ s.post.term) (hvotes : ∀ k t, s.votes k t = false)
    (hcount : s.post.role = .candidate →
      s.post.voteCount + c.net.countP (isGrant s.node s.post.term) ≤
        c.ids.countP (hasVoted c.history s.node s.post.term))
    (helected : s.BecomesLeader →
      Quorum.Majority c.ids (hasVoted c.history s.node s.post.term)) :
    Tallies c s vs := by
  constructor
  case id => exact hid
  case peers => exact hpeers
  case term => exact hterm
  case stood =>
    intro k t hv
    rw [hvotes] at hv
    cases hv
  case request => exact fun e he m hm => absurd hm ((hs e he).1 m)
  case pending => exact fun e _ m _ _ => hvotes e.src m.term
  case once =>
    intro k d t
    rw [hs.countP_isRequest, Nat.add_zero]
    exact h.once k d t
  case granted =>
    intro e he m hm hg
    rw [(hs e he).2 m hm] at hg
    cases hg
  case counted =>
    intro hr
    rw [hs.countP_isGrant, Nat.add_zero]
    exact Nat.le_trans (hcount hr) (countP_hasVoted_mono _ _ _ _ _)
  case counted_other =>
    intro a _ _ t
    rw [hs.countP_isGrant, Nat.add_zero]
    exact countP_hasVoted_mono _ _ _ _ _
  case elected => exact helected

theorem QuorumInv.tallies_keep (h : QuorumInv c) (hn : s.node ∈ c.ids)
    (hpre : s.pre = c.raft s.node) (hs : Silent vs)
    (hg : ∀ t, s.pushed.any (RaftMessage.grants t) = false)
    (hb : s.post.ballot = s.pre.ballot) : Tallies c s vs := by
  have hterm : s.post.term = s.pre.term := congrArg Ballot.term hb
  have hrole : s.post.role = s.pre.role := congrArg Ballot.role hb
  have hcount : s.post.voteCount = s.pre.voteCount := congrArg Ballot.voteCount hb
  refine h.tallies_quiet hs (congrArg Ballot.id hb) (congrArg Ballot.peerIds hb)
    (Nat.le_of_eq hterm.symm) (votes_false hg (stands_false_of_term hterm)) (fun hr => ?_)
    (fun hl => absurd (hrole.symm.trans hl.2) hl.1)
  rw [hcount, hterm, hpre]
  rw [hrole, hpre] at hr
  exact h.counted s.node hn hr

theorem QuorumInv.tallies_stepDown (h : QuorumInv c) (hs : Silent vs)
    (hg : ∀ t, s.pushed.any (RaftMessage.grants t) = false) (ht : s.pre.term < s.post.term)
    (hb : s.post.ballot =
      { s.pre.ballot with term := s.post.term, role := .follower, votedFor := -1 }) :
    Tallies c s vs := by
  have hrole : s.post.role = .follower := congrArg Ballot.role hb
  refine h.tallies_quiet hs (congrArg Ballot.id hb) (congrArg Ballot.peerIds hb)
    (Nat.le_of_lt ht) (votes_false hg (stands_false_of_role hrole)) (fun hr => ?_)
    fun hl => ?_
  · rw [hrole] at hr
    cases hr
  · have hr := hl.2
    rw [hrole] at hr
    cases hr

theorem QuorumInv.tallies_refuse (h : QuorumInv c) (hn : s.node ∈ c.ids)
    (hpre : s.pre = c.raft s.node) (hs : Silent vs)
    (hg : ∀ t, s.pushed.any (RaftMessage.grants t) = false) {t : Nat}
    (hr : s.post = s.pre.observe (-1) t) : Tallies c s vs := by
  by_cases ht : t > s.pre.term
  · rw [observe_gt ht] at hr
    refine h.tallies_stepDown hs hg ?_ ?_
    · rw [hr]
      exact ht
    · rw [hr]
      rfl
  · rw [observe_le ht] at hr
    exact h.tallies_keep hn hpre hs hg (by rw [hr])

/-- Nobody has voted for the node in a term that it has not reached. -/
theorem QuorumInv.not_hasVoted (h : QuorumInv c) {t : Nat} (ht : (c.raft n).term < t)
    (a : Int) : hasVoted c.history n t a = false := by
  cases hv : hasVoted c.history n t a with
  | false => rfl
  | true =>
    have hle := h.stood n t a hv
    omega

theorem QuorumInv.countP_isRequest_ahead (h : QuorumInv c) {t : Nat}
    (ht : (c.raft n).term < t) (d : Int) : c.net.countP (isRequest n d t) = 0 := by
  refine countP_isRequest_eq_zero (fun e he m hm hs => ?_) d
  have hle := (h.request e he m hm).2.1
  rw [hs] at hle
  omega

theorem QuorumInv.countP_isGrant_ahead (h : QuorumInv c) {t : Nat}
    (ht : (c.raft n).term < t) : c.net.countP (isGrant n t) = 0 := by
  apply countP_isGrant_eq_zero
  rintro e he m hm hg rfl rfl
  have hv := h.granted e he m hm hg
  rw [h.not_hasVoted ht] at hv
  cases hv

/-- A candidacy asks every other node for the first time. -/
theorem QuorumInv.tallies_stand (h : QuorumInv c) (hn : n ∈ c.ids) {ms : List RaftMessage} :
    Tallies c { node := n, pre := c.raft n, post := (c.raft n).toCandidate, pushed := ms }
      ((c.raft n).toCandidate.voteRequests.filterMap (route n caller)) := by
  let s : CoreStep :=
    { node := n, pre := c.raft n, post := (c.raft n).toCandidate, pushed := ms }
  show Tallies c s _
  have hid : (c.raft n).id = n := h.ident n hn
  have hahead : (c.raft n).term < (c.raft n).term + 1 := Nat.lt_succ_self _
  have hgives : ∀ k t, s.votes k t = true → k = n ∧ t = (c.raft n).term + 1 := by
    intro k t hv
    simp only [CoreStep.votes, Bool.and_eq_true, beq_iff_eq] at hv
    exact ⟨hv.1.1.symm.trans hid, hv.1.2.symm⟩
  constructor
  case id => rfl
  case peers => rfl
  case term => exact Nat.le_succ _
  case stood => exact fun k t hv hk => absurd (hgives k t hv).1 hk
  case request =>
    intro e he m hm
    obtain ⟨p, hp, hpn, rfl⟩ := mem_voteRequests hid he
    obtain rfl := RaftMessage.requestVoteRequest.inj hm
    exact ⟨hid, rfl, hpn, Nat.le_refl _, h.not_hasVoted hahead p.id⟩
  case pending =>
    intro e he m hm _
    cases hv : s.votes e.src m.term with
    | false => rfl
    | true =>
      obtain ⟨hs, ht⟩ := hgives _ _ hv
      have hle := (h.request e he m hm).2.1
      rw [hs, ht] at hle
      omega
  case once =>
    refine once_voteRequests hid ?_ h.once (h.countP_isRequest_ahead hahead)
    rw [h.peers n hn]
    exact h.nodup
  case granted =>
    intro e he m hm _
    obtain ⟨p, -, -, rfl⟩ := mem_voteRequests hid he
    cases hm
  case counted =>
    intro _
    have hown : s.votes n ((c.raft n).term + 1) = true := by
      simp [s, CoreStep.votes, CoreStep.stands, hid]
    have hpos : 0 < c.ids.countP (hasVoted (c.history ++ [s]) n ((c.raft n).term + 1)) :=
      List.countP_pos_iff.mpr ⟨n, hn, hasVoted_self hown⟩
    show 1 + (c.net.countP (isGrant n ((c.raft n).term + 1)) + _) ≤ _
    rw [h.countP_isGrant_ahead hahead, countP_voteRequests_isGrant hid]
    exact hpos
  case counted_other =>
    intro a _ _ t
    rw [countP_voteRequests_isGrant hid, Nat.add_zero]
    exact countP_hasVoted_mono _ _ _ _ _
  case elected => exact fun hl => nomatch hl.2

/-- A granted vote.  The request in hand is the only one of its candidate and term to
this node, which is why the vote is a new one. -/
theorem QuorumInv.tallies_grant (h : QuorumInv c) {m : RaftRequestVoteRequestMessage}
    (hin : VoteInHand c n caller (.message (.requestVoteRequest m)))
    (ht : (c.raft n).term ≤ m.term) {ms : List RaftMessage}
    (hms : ms.filter RaftMessage.isVote =
      [.requestVoteResponse { seq := m.seq, term := m.term, voteGranted := true }]) :
    Tallies c
      { node := n
        pre := c.raft n
        post := ((c.raft n).observe (-1) m.term).setVotedFor m.fromId
        pushed := ms }
      [{ src := n
         dst := caller
         msg := .requestVoteResponse { seq := m.seq, term := m.term, voteGranted := true } }] := by
  obtain ⟨hn, hfrom, hreach, hnew, hzero⟩ := hin
  have hterm : ((c.raft n).observe (-1) m.term).term = m.term := term_of_grant ht
  have hrole : ((c.raft n).observe (-1) m.term).role = .follower ∨
      (c.raft n).observe (-1) m.term = c.raft n := by
    by_cases hgt : m.term > (c.raft n).term
    · rw [observe_gt hgt]
      exact .inl rfl
    · exact .inr (observe_le hgt)
  let s : CoreStep :=
    { node := n
      pre := c.raft n
      post := ((c.raft n).observe (-1) m.term).setVotedFor m.fromId
      pushed := ms }
  show Tallies c s _
  have hgives : ∀ k t, s.votes k t = true → k = caller ∧ t = m.term := by
    intro k t hv
    simp only [CoreStep.votes, Bool.and_eq_true, beq_iff_eq] at hv
    exact ⟨hv.1.1.symm.trans hfrom, hv.1.2.symm.trans hterm⟩
  have hgiven : s.votes caller m.term = true := by
    have hv : s.post.votedFor = caller := hfrom
    have hst : s.post.term = m.term := hterm
    rw [CoreStep.votes, hv, hst, any_grants, show s.pushed = ms from rfl, hms]
    simp [RaftMessage.grants]
  have hone : ∀ a t, c.ids.countP (hasVoted c.history a t) +
      [({ src := n
          dst := caller
          msg := .requestVoteResponse
            { seq := m.seq, term := m.term, voteGranted := true } } : Envelope)].countP
        (isGrant a t) ≤ c.ids.countP (hasVoted (c.history ++ [s]) a t) := by
    intro a t
    rw [List.countP_singleton]
    split
    next hg =>
      simp only [isGrant, Bool.and_eq_true, beq_iff_eq] at hg
      obtain ⟨⟨rfl, rfl⟩, -⟩ := hg
      -- the voter had not voted for this candidate
      exact Quorum.countP_lt_of_new hn (fun b _ hb => hasVoted_mono s hb) hnew
        (hasVoted_self hgiven)
    next => exact countP_hasVoted_mono _ _ _ _ _
  constructor
  case id => exact observe_id (-1) m.term
  case peers => exact congrArg (List.map (·.id)) (observe_peers (-1) m.term)
  case term =>
    show (c.raft n).term ≤ ((c.raft n).observe (-1) m.term).term
    rw [hterm]
    exact ht
  case stood =>
    intro k t hv _
    obtain ⟨rfl, rfl⟩ := hgives k t hv
    exact hreach
  case request =>
    intro e he m' hm'
    obtain rfl := List.mem_singleton.mp he
    cases hm'
  case pending =>
    intro e he m' hm' hd
    cases hv : s.votes e.src m'.term with
    | false => rfl
    | true =>
      obtain ⟨hs, hmt⟩ := hgives _ _ hv
      exact absurd hs (isRequest_ne hzero he hm' hd hmt)
  case once =>
    intro k d t
    rw [countP_isRequest_answer, Nat.add_zero]
    exact h.once k d t
  case granted =>
    intro e he m' hm' _
    obtain rfl := List.mem_singleton.mp he
    obtain rfl := RaftMessage.requestVoteResponse.inj hm'
    exact ⟨rfl, hgiven⟩
  case counted =>
    intro hr
    rcases hrole with hrole | hrole
    · cases hrole.symm.trans hr
    · have hsame : (c.raft n).term = m.term := (congrArg Raft.term hrole).symm.trans hterm
      have hold := h.counted n hn ((congrArg Raft.role hrole).symm.trans hr)
      have hmore := hone n m.term
      have hcount : ((c.raft n).observe (-1) m.term).voteCount = (c.raft n).voteCount :=
        congrArg Raft.voteCount hrole
      rw [hsame] at hold
      rw [show s.post.term = m.term from hterm]
      show ((c.raft n).observe (-1) m.term).voteCount +
        (c.net.countP (isGrant n m.term) + List.countP (isGrant n m.term) _) ≤
          c.ids.countP (hasVoted _ n m.term)
      rw [hcount]
      omega
  case counted_other => exact fun a _ _ t => hone a t
  case elected =>
    intro hl
    rcases hrole with hrole | hrole
    · cases hrole.symm.trans hl.2
    · exact absurd ((congrArg Raft.role hrole).symm.trans hl.2) hl.1

theorem QuorumInv.tallies_count (h : QuorumInv c)
    {m : RaftRequestVoteResponseMessage}
    (hin : VoteInHand c n caller (.message (.requestVoteResponse m)))
    (hr : (c.raft n).role = .candidate) (ht : m.term = (c.raft n).term)
    (hgr : m.voteGranted = true) {ms : List RaftMessage}
    (hg : ∀ t, ms.any (RaftMessage.grants t) = false) :
    Tallies c { node := n, pre := c.raft n, post := (c.raft n).countVote, pushed := ms } [] := by
  refine h.tallies_quiet silent_nil rfl rfl (Nat.le_refl _)
    (votes_false hg (stands_false_of_term rfl)) (fun _ => ?_) fun hl => absurd hl.2 ?_
  · have hle := hin hgr hr ht
    show (c.raft n).voteCount + 1 + c.net.countP (isGrant n (c.raft n).term) ≤
      c.ids.countP (hasVoted c.history n (c.raft n).term)
    omega
  · show (c.raft n).role ≠ .leader
    rw [hr]
    exact nofun

/-- The votes counted are a majority, and each of them comes from another node. -/
theorem QuorumInv.tallies_elect (h : QuorumInv c) (hn : n ∈ c.ids)
    {m : RaftRequestVoteResponseMessage}
    (hin : VoteInHand c n caller (.message (.requestVoteResponse m)))
    (hr : (c.raft n).role = .candidate) (ht : m.term = (c.raft n).term)
    (hgr : m.voteGranted = true)
    (hc : (c.raft n).voteCount + 1 > (c.raft n).peers.length / 2) {r' : Raft}
    (hb : r'.ballot =
      { (c.raft n).ballot with role := .leader, votedFor := -1, voteCount := 0 })
    {ms : List RaftMessage} (hg : ∀ t, ms.any (RaftMessage.grants t) = false) :
    Tallies c { node := n, pre := c.raft n, post := r', pushed := ms } [] := by
  have hterm : r'.term = (c.raft n).term := congrArg Ballot.term hb
  have hrole : r'.role = .leader := congrArg Ballot.role hb
  refine h.tallies_quiet silent_nil (congrArg Ballot.id hb) (congrArg Ballot.peerIds hb)
    (Nat.le_of_eq hterm.symm) (votes_false hg (stands_false_of_term hterm)) (fun hl => ?_)
    fun _ => ?_
  · rw [hrole] at hl
    cases hl
  · have hle := hin hgr hr ht
    have hlen : (c.raft n).peers.length = c.ids.length := by
      rw [← h.peers n hn, List.length_map]
    show c.ids.length / 2 < c.ids.countP (hasVoted c.history n r'.term)
    rw [hterm]
    rw [hlen] at hc
    omega

theorem QuorumInv.tallies (h : QuorumInv c) (hn : n ∈ c.ids) (hin : VoteInHand c n caller i)
    {r' : Raft} {vs ms : List RaftMessage} (hms : ms.filter RaftMessage.isVote = vs)
    (hb : BallotStep (c.raft n) i r' vs) :
    Tallies c { node := n, pre := c.raft n, post := r', pushed := ms }
      (vs.filterMap (route n caller)) := by
  have hquiet : ∀ t, vs.any (RaftMessage.grants t) = false →
      ms.any (RaftMessage.grants t) = false := by
    intro t hv
    rw [any_grants, hms]
    exact hv
  cases hb with
  | keep hb => exact h.tallies_keep hn rfl silent_nil (fun t => hquiet t rfl) hb
  | stepDown ht hb => exact h.tallies_stepDown silent_nil (fun t => hquiet t rfl) ht hb
  | stand hr => exact h.tallies_stand hn
  | refuse hr =>
    refine h.tallies_refuse hn rfl (silent_refusal rfl) (fun t => hquiet t ?_) hr
    simp [RaftMessage.grants]
  | grant ht hv hl => exact h.tallies_grant hin ht hms
  | count hr ht hg hc => exact h.tallies_count hin hr ht hg fun t => hquiet t rfl
  | elect hr ht hg hc hb => exact h.tallies_elect hn hin hr ht hg hc hb fun t => hquiet t rfl

theorem QuorumInv.act (h : QuorumInv c) (hin : c.Live n → VoteInHand c n caller i) :
    QuorumInv (c.act n caller i) := by
  by_cases hl : c.Live n
  · refine h.acts hl.1 (acts_act _ _ hl) ?_
    rw [filter_route]
    exact h.tallies hl.1 (hin hl) rfl (react_ballot (c.raft n) i)
  · rw [act_dead hl]
    exact h

end Ballots

/-! ## Runs -/

theorem QuorumInv.step (h : QuorumInv c) {a : Action} {c' : Cluster}
    (hs : c.step a = some c') : QuorumInv c' := by
  cases moves_of_step hs with
  | @timer a n i hi =>
    refine h.act fun _ => ?_
    cases i with
    | message m => exact absurd rfl (hi m)
    | _ => trivial
  | client => exact h.act fun _ => trivial
  | deliver hk he => exact (h.take _).act fun hl => h.inHand hk hl.1
  | clerk hk hm => exact (h.take _).post (silent_clerk hm)
  | lose => exact h.take _
  | @rpcFailure caller callee kind => exact h.post (silent_default callee kind)

theorem Reaches.quorumInv {ids : List Int} (hm : ids.Nodup) (hr : Reaches anyStep ids c) :
    QuorumInv c := by
  obtain ⟨as, hr⟩ := hr
  exact hr.invariant (fun _ _ _ h _ hs => h.step hs) (quorumInv_init hm)

/-- In every run, a leader has the votes of a majority for its term, and no candidate has
counted a vote of another term. -/
theorem electedByMajority (ids : List Int) (c : Cluster) (hm : ids.Nodup)
    (hr : Reaches anyStep ids c) : c.ElectedByMajority ∧ c.CountsOwnVotes := by
  have h := hr.quorumInv hm
  exact ⟨h.elected, h.countsOwnVotes⟩

/-- Node 0 stands twice.  A vote for its first candidacy arrives in the second one and is
passed over. -/
theorem electedByMajority_restood :
    ∃ c, Reaches anyStep [0, 1, 2] c ∧ (∃ s ∈ c.history, s.BecomesLeader) ∧
      c.ElectedByMajority ∧ c.CountsOwnVotes := by
  obtain ⟨c, hr, hc⟩ := Reaches.of_exec anyStep [0, 1, 2]
    [.electionTimeout 0, .deliver 0, .electionTimeout 0, .deliver 1, .deliver 2, .deliver 2]
    (fun c => decide (∃ s ∈ c.history, s.BecomesLeader)) (by decide +kernel)
  exact ⟨c, hr, of_decide_eq_true hc, electedByMajority [0, 1, 2] c (by decide) hr⟩

end Cluster

end WWRaftKV
