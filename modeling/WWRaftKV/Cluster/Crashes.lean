/-
Nodes that crash and start again.

The cluster of `Cluster/Model` with the persist file of every node.  A process may end
at any moment between two steps of its core, and may be started again later, when it
loads its file.  What waits in its channels is gone, and so are the answers to its
calls; of the requests that are on their way to it, any may still arrive.

A restarted node has a term and a vote, and nothing else that an election needs.  A
node that has won its term has put "nobody" into `_Voted_for` and has written that to
its file, so after a restart it is a follower that has given its vote away and does
not know it.  `electionSafety_of_winnerKeepsVote` excludes only that such a node, or a
leader, is asked for the vote of that term by somebody whose log is as good as its own.
-/
import WWRaftKV.Core.Pledge
import WWRaftKV.Cluster.Leadership
import WWRaftKV.Node.View

namespace WWRaftKV

open Cluster

structure DurableCluster where
  cluster : Cluster
  files : Int → Option RaftPersistData

/-- What happens to the processes, besides the moves of the cluster. -/
inductive Fate
  | move (a : Action)
  /-- the process of a node ends -/
  | crash (n : Int)
  /-- the process of a node that is down is started -/
  | restart (n : Int)
deriving DecidableEq, Repr

namespace DurableCluster

def init (ids : List Int) : DurableCluster where
  cluster := Cluster.init ids
  files := fun _ => none

/-- The files after the core of `n` has handled `i`. -/
def write (d : DurableCluster) (n : Int) (i : Input) : Int → Option RaftPersistData :=
  if n ∈ d.cluster.ids ∧ (d.cluster.servers n).alive then
    Function.update d.files n
      (((d.cluster.raft n).react i).persisted.getLast?.or (d.files n))
  else d.files

/-- The message waits in the process of node `n`, or it answers a call of it. -/
def diesWith (n : Int) (e : Envelope) : Bool :=
  e.dst == n && (e.msg.isLocal || e.msg.isPeerResponse)

def kill (d : DurableCluster) (n : Int) : Cluster :=
  { d.cluster with
    servers := Function.update d.cluster.servers n
      { raft := d.cluster.raft n, alive := false }
    net := d.cluster.net.filter fun e => !diesWith n e }

def boot (d : DurableCluster) (n : Int) : Cluster :=
  { d.cluster with
    servers := Function.update d.cluster.servers n
      { raft := WWRaftKV.restart n d.cluster.ids (d.files n), alive := true } }

def step (d : DurableCluster) : Fate → Option DurableCluster
  | .move a => (d.cluster.step a).map fun c =>
    { cluster := c
      files := match d.cluster.turn a with
        | some (n, _, i) => d.write n i
        | none => d.files }
  | .crash n =>
    if n ∈ d.cluster.ids ∧ (d.cluster.servers n).alive then
      some { d with cluster := d.kill n }
    else none
  | .restart n =>
    if n ∈ d.cluster.ids ∧ ¬ (d.cluster.servers n).alive then
      some { d with cluster := d.boot n }
    else none

end DurableCluster

/-- The step does not hand a node that has won its term a vote request of this term
with a log at least as up to date as the node's. -/
def Cluster.WinnerKeepsVote (c : Cluster) (n : Int) : Input → Prop
  | .message (.requestVoteRequest m) =>
    c.Won n → m.term = (c.raft n).term →
      (c.raft n).logUpToDate m.lastLogIndex m.lastLogTerm = false
  | _ => True

instance (c : Cluster) (n : Int) (i : Input) : Decidable (c.WinnerKeepsVote n i) := by
  induction i using Input.casesOn with
  | message m =>
    induction m using RaftMessage.casesOn <;> unfold Cluster.WinnerKeepsVote <;> infer_instance
  | _ => exact .isTrue trivial

namespace DurableCluster

/-- A condition on what the core of a live node handles next. -/
def Obeys (ok : Cluster → Int → Input → Prop) (d : DurableCluster) : Fate → Prop
  | .move a => d.cluster.Obeys ok a
  | _ => True

instance (ok : Cluster → Int → Input → Prop) [∀ c n i, Decidable (ok c n i)]
    (d : DurableCluster) (a : Fate) : Decidable (d.Obeys ok a) := by
  cases a <;> unfold Obeys <;> infer_instance

def Reaches (ok : Cluster → Int → Input → Prop) (ids : List Int) (d : DurableCluster) : Prop :=
  ∃ as, Transition.Run step (Obeys ok) (init ids) as d

/-- A run found by evaluation. -/
theorem Reaches.of_exec (ok : Cluster → Int → Input → Prop) [∀ c n i, Decidable (ok c n i)]
    (ids : List Int) (as : List Fate) (p : DurableCluster → Bool)
    (h : (Transition.exec step (Obeys ok) (init ids) as).map p = some true) :
    ∃ d, Reaches ok ids d ∧ p d = true := by
  obtain ⟨d, hr, hp⟩ := Transition.Run.exists_of_exec h
  exact ⟨d, ⟨as, hr⟩, hp⟩

/-! ## The files -/

/-- The file of every node has its term and its vote. -/
def Pledged (d : DurableCluster) : Prop :=
  ∀ n, (WWRaftKV.restart n d.cluster.ids (d.files n)).pledge = (d.cluster.raft n).pledge

theorem restart_pledge (n : Int) (ids : List Int) (file : Option RaftPersistData) :
    (WWRaftKV.restart n ids file).pledge =
      (file.map RaftPersistData.pledge).getD (Raft.make n ids).pledge := by
  cases file <;> rfl

/-- The records of a step take the place of the file. -/
theorem restart_pledge_or (n : Int) (ids : List Int) (file : Option RaftPersistData)
    (ds : List RaftPersistData) :
    (WWRaftKV.restart n ids (ds.getLast?.or file)).pledge =
      pledgeAfter (WWRaftKV.restart n ids file).pledge ds := by
  rw [restart_pledge, restart_pledge, pledgeAfter]
  cases ds.getLast? <;> rfl

variable {d : DurableCluster} {n : Int}

@[simp] theorem kill_raft (d : DurableCluster) (n a : Int) :
    (d.kill n).raft a = d.cluster.raft a := by
  show (Function.update d.cluster.servers n _ a).raft = _
  rw [Function.update_apply]
  split
  next h => rw [h]
  next => rfl

theorem boot_raft (d : DurableCluster) (n a : Int) :
    (d.boot n).raft a =
      if a = n then WWRaftKV.restart n d.cluster.ids (d.files n) else d.cluster.raft a := by
  show (Function.update d.cluster.servers n _ a).raft = _
  rw [Function.update_apply]
  split <;> rfl

/-- What a step is, by what has to be said about it. -/
inductive Turns (d : DurableCluster) : Fate → DurableCluster → Prop
  /-- a timer, or an operation of a client -/
  | alone {a : Action} {n : Int} {i : Input}
      (hi : ∀ m, i = .message m → ∃ q, m = .kvOperationRequest q) :
      Turns d (.move a) { cluster := d.cluster.act n n i, files := d.write n i }
  | deliver {k : Nat} {e : Envelope} (hk : d.cluster.net[k]? = some e)
      (he : e.msg.forClerk = false) :
      Turns d (.move (.deliver k))
        { cluster := (d.cluster.take k).act e.dst e.src (.message e.msg)
          files := d.write e.dst (.message e.msg) }
  | clerk {k : Nat} {b : Bool} {e : Envelope} {m : RaftMessage}
      (hk : d.cluster.net[k]? = some e) (hm : clerkAnswer b e.msg = some m) :
      Turns d (.move (.clerk k b))
        { d with cluster := (d.cluster.take k).post [{ e with msg := m }] }
  | lose {k : Nat} : Turns d (.move (.lose k)) { d with cluster := d.cluster.take k }
  | rpcFailure {caller callee : Int} {kind : RpcKind} :
      Turns d (.move (.rpcFailure caller callee kind))
        { d with
          cluster := d.cluster.post
            [{ src := callee, dst := caller, msg := kind.defaultResponse callee }] }
  | crash {n : Int} : Turns d (.crash n) { d with cluster := d.kill n }
  | restart {n : Int} (hn : n ∈ d.cluster.ids) :
      Turns d (.restart n) { d with cluster := d.boot n }

theorem turns_of_step {a : Fate} {d' : DurableCluster} (hs : d.step a = some d') :
    d.Turns a d' := by
  cases a with
  | move a =>
    obtain ⟨c, hc, rfl⟩ := Option.map_eq_some_iff.mp hs
    cases a with
    | electionTimeout n =>
      obtain rfl := Option.some.inj hc
      exact .alone (i := .electionTimeout) nofun
    | heartbeatTimeout n =>
      obtain rfl := Option.some.inj hc
      exact .alone (i := .heartbeatTimeout) nofun
    | client n m =>
      obtain rfl := Option.some.inj hc
      refine .alone (i := .message (.kvOperationRequest m)) fun x hx => ?_
      exact ⟨m, (Input.message.inj hx).symm⟩
    | deliver k =>
      simp only [Cluster.step, turn] at hc ⊢
      cases hk : d.cluster.net[k]? with
      | none => simp [hk] at hc
      | some e =>
        simp only [hk] at hc ⊢
        by_cases he : e.msg.forClerk = true
        · simp [he] at hc
        · rw [if_neg he] at hc ⊢
          obtain rfl := Option.some.inj hc
          exact .deliver hk (by simpa using he)
    | clerk k b =>
      simp only [Cluster.step, turn] at hc ⊢
      cases hk : d.cluster.net[k]? with
      | none => simp [hk] at hc
      | some e =>
        simp only [hk] at hc
        cases hm : clerkAnswer b e.msg with
        | none => simp [hm] at hc
        | some m =>
          simp only [hm] at hc
          obtain rfl := Option.some.inj hc
          exact .clerk hk hm
    | lose k =>
      obtain rfl := Option.some.inj hc
      exact .lose
    | rpcFailure caller callee kind =>
      obtain rfl := Option.some.inj hc
      exact .rpcFailure
  | crash n =>
    rw [DurableCluster.step] at hs
    split at hs
    · obtain rfl := Option.some.inj hs
      exact .crash
    · cases hs
  | restart n =>
    rw [DurableCluster.step] at hs
    split at hs
    next h =>
      obtain rfl := Option.some.inj hs
      exact .restart h.1
    next => cases hs

theorem Pledged.act (h : d.Pledged) (caller : Int) (i : Input) :
    Pledged { cluster := d.cluster.act n caller i, files := d.write n i } := by
  by_cases hl : d.cluster.Live n
  · intro a
    have hw : d.write n i = Function.update d.files n
        (((d.cluster.raft n).react i).persisted.getLast?.or (d.files n)) := if_pos hl
    show (WWRaftKV.restart a (d.cluster.act n caller i).ids (d.write n i a)).pledge =
      ((d.cluster.act n caller i).raft a).pledge
    rw [act_ids, act_raft hl, hw, Function.update_apply]
    by_cases ha : a = n
    · subst ha
      rw [if_pos rfl, if_pos rfl, restart_pledge_or, h a, Raft.react_pledge]
    · rw [if_neg ha, if_neg ha]
      exact h a
  · have hw : d.write n i = d.files := if_neg hl
    rw [act_dead hl, hw]
    exact h

theorem Pledged.step (h : d.Pledged) {a : Fate} {d' : DurableCluster}
    (hs : d.step a = some d') : d'.Pledged := by
  cases turns_of_step hs with
  | alone hi => exact h.act _ _
  | @deliver k e hk he =>
    have htake : Pledged { d with cluster := d.cluster.take k } := h
    exact htake.act e.src (.message e.msg)
  | clerk hk hm => exact h
  | lose => exact h
  | rpcFailure => exact h
  | @crash n =>
    intro a
    show (WWRaftKV.restart a d.cluster.ids (d.files a)).pledge = ((d.kill n).raft a).pledge
    rw [kill_raft]
    exact h a
  | @restart n hn =>
    intro a
    show (WWRaftKV.restart a d.cluster.ids (d.files a)).pledge = ((d.boot n).raft a).pledge
    rw [boot_raft]
    split
    next ha => rw [ha]
    next => exact h a

/-! ## The title of a winner

A node that has won its term is shown with the role of a leader, whether it still has
it or has lost it in a crash.  In the shown cluster the invariant `VoteInv` holds. -/

/-- The node as it is shown, `b` telling whether it has won its term. -/
def shade (r : Raft) (b : Prop) [Decidable b] : Raft := if b then { r with role := .leader } else r

/-- The cluster `s` shows `c`. -/
structure Shows (s c : Cluster) : Prop where
  ids : s.ids = c.ids
  net : s.net = c.net
  raft : ∀ n, s.raft n = shade (c.raft n) (c.Won n)
  elections : ∀ x ∈ c.history, x.BecomesLeader →
    ∃ y ∈ s.history, y.BecomesLeader ∧ y.node = x.node ∧ y.post.term = x.post.term
  leads : ∀ n, (c.raft n).role = .leader → c.Won n
  runs : ∀ n, c.Won n → (c.raft n).role ≠ .candidate

namespace Shows

variable {s c : Cluster} {v : Int → Nat → Option Int}

theorem won (h : Shows s c) {n : Int} (hw : c.Won n) :
    s.raft n = { c.raft n with role := .leader } := by
  rw [h.raft, shade, if_pos hw]

theorem not_won (h : Shows s c) {n : Int} (hw : ¬ c.Won n) : s.raft n = c.raft n := by
  rw [h.raft, shade, if_neg hw]

theorem term (h : Shows s c) (n : Int) : (s.raft n).term = (c.raft n).term := by
  by_cases hw : c.Won n
  · rw [h.won hw]
  · rw [h.not_won hw]

theorem take (h : Shows s c) (k : Nat) : Shows (s.take k) (c.take k) where
  ids := h.ids
  net := congrArg (fun es => es.eraseIdx k) h.net
  raft := h.raft
  elections := h.elections
  leads := h.leads
  runs := h.runs

theorem post (h : Shows s c) (es : List Envelope) : Shows (s.post es) (c.post es) where
  ids := h.ids
  net := congrArg (fun xs => xs ++ es) h.net
  raft := h.raft
  elections := h.elections
  leads := h.leads
  runs := h.runs

theorem electionSafety (h : Shows s c) (hv : VoteInv s v) : c.ElectionSafety := by
  intro x hx y hy hxl hyl hterm
  obtain ⟨x', hx', hxl', hxn, hxt⟩ := h.elections x hx hxl
  obtain ⟨y', hy', hyl', hyn, hyt⟩ := h.elections y hy hyl
  have hnode := hv.electionSafety x' hx' y' hy' hxl' hyl' (by rw [hxt, hyt, hterm])
  rw [← hxn, ← hyn, hnode]

/-- Nobody has won a term it has not reached. -/
theorem elected_le (h : Shows s c) (hv : VoteInv s v) {x : CoreStep} (hx : x ∈ c.history)
    (hl : x.BecomesLeader) : x.post.term ≤ (c.raft x.node).term := by
  obtain ⟨y, hy, hyl, hn, ht⟩ := h.elections x hx hl
  have hle := (hv.elected y hy hyl).2.2
  rwa [hn, ht, h.term] at hle

section Step

open Raft

variable {n caller : Int} {i : Input} {r' : Raft} {ms : List RaftMessage}

/-- The term is won from now on when it has been won before, or in this step. -/
theorem won_act_self (h : Shows s c) (hv : VoteInv s v) (hl : c.Live n) (caller : Int)
    (i : Input) :
    (c.act n caller i).Won n ↔
      (c.Won n ∧ ((c.raft n).react i).raft.term = (c.raft n).term) ∨
        ((c.raft n).role ≠ .leader ∧ ((c.raft n).react i).raft.role = .leader) := by
  have hterm := (react_ballot (c.raft n) i).term_le
  unfold Won
  rw [act_raft_self hl, act_history hl]
  constructor
  · rintro ⟨x, hx, rfl, hb, ht⟩
    rcases List.mem_append.mp hx with hx | hx
    · have hle := h.elected_le hv hx hb
      exact .inl ⟨⟨x, hx, rfl, hb, by omega⟩, by omega⟩
    · rw [List.mem_singleton.mp hx] at hb
      exact .inr hb
  · rintro (⟨⟨x, hx, hn, hb, ht⟩, hsame⟩ | hb)
    · exact ⟨x, List.mem_append_left _ hx, hn, hb, ht.trans hsame.symm⟩
    · exact ⟨_, List.mem_append_right _ (List.mem_singleton.mpr rfl), rfl, hb, rfl⟩

/-- A step of a node that has not won its term casts its votes as in the cluster that
never crashes. -/
theorem casts_of_not_won (h : Shows s c) (hv : VoteInv s v) (hn : n ∈ c.ids)
    (hin : InHand s v n caller i) (hw : ¬ c.Won n) (hb : BallotStep (c.raft n) i r' ms) :
    Casts s v n r' (ms.filterMap (route n caller)) := by
  rw [← h.not_won hw] at hb
  refine hv.casts (h.ids ▸ hn) hin ?_ hb
  unfold LeaderKeepsVote
  split
  · intro hr
    rw [h.not_won hw] at hr
    exact absurd (h.leads n hr) hw
  · trivial

/-- A winner keeps its title until it leaves the term. -/
theorem casts_of_won (h : Shows s c) (hv : VoteInv s v) (hn : n ∈ c.ids)
    (hin : InHand s v n caller i) (hg : c.WinnerKeepsVote n i) (hw : c.Won n)
    (hb : BallotStep (c.raft n) i r' ms) :
    Casts s v n (shade r' (r'.term = (c.raft n).term)) (ms.filterMap (route n caller)) := by
  have hs : s.raft n = { c.raft n with role := .leader } := h.won hw
  have hterm : (s.raft n).term = (c.raft n).term := h.term n
  have hmem : n ∈ s.ids := h.ids ▸ hn
  have hno := h.runs n hw
  have hobs : ∀ t, t > (c.raft n).term →
      (s.raft n).observe (-1) t = (c.raft n).observe (-1) t := by
    intro t ht
    rw [observe_gt ht, observe_gt (by rw [hterm]; exact ht), hs]
    rfl
  cases hb with
  | keep hb =>
    have ht : r'.term = (c.raft n).term := congrArg Ballot.term hb
    rw [shade, if_pos ht]
    refine hv.casts_keep hmem silent_nil ?_
    rw [hs]
    exact congrArg (fun b : Ballot => { b with role := .leader }) hb
  | stepDown ht hb =>
    rw [shade, if_neg (by omega)]
    refine hv.casts_stepDown hmem silent_nil (by omega) ?_
    rw [hs]
    exact hb
  | stand hr =>
    have hc : (c.raft n).toCandidate = (s.raft n).toCandidate := by rw [hs]; rfl
    rw [shade, if_neg (by show ¬ (c.raft n).term + 1 = _; omega), hc]
    exact hv.casts_stand hmem
  | @refuse m _ hr =>
    subst hr
    by_cases ht : m.term > (c.raft n).term
    · rw [shade, if_neg (by rw [observe_gt ht]; show ¬ m.term = _; omega), ← hobs _ ht]
      exact hv.casts_observe hmem (silent_refusal rfl) _
    · rw [observe_le ht, shade, if_pos rfl, ← hs]
      exact hv.casts_keep hmem (silent_refusal rfl) rfl
  | @grant m ht hvote hlog =>
    have hgt : m.term > (c.raft n).term := by
      rcases Nat.lt_or_ge (c.raft n).term m.term with hgt | hle
      · exact hgt
      · rw [hg hw (Nat.le_antisymm hle ht)] at hlog
        cases hlog
    rw [← hobs _ hgt] at hvote ⊢
    rw [shade, if_neg ?_]
    · refine hv.casts_grant hmem hin (fun _ => ?_) (hterm ▸ ht) hvote
      rw [hterm]
      omega
    · show ¬ ((s.raft n).observe (-1) m.term).term = _
      rw [term_of_grant (hterm ▸ ht)]
      omega
  | count hr => exact absurd hr hno
  | elect hr => exact absurd hr hno

/-- Only a candidate wins. -/
theorem candidate_of_elected {r : Raft} (hb : BallotStep r i r' ms) (hr : r.role ≠ .leader)
    (hr' : r'.role = .leader) : r.role = .candidate := by
  cases hb with
  | keep hb => exact absurd ((congrArg Ballot.role hb).symm.trans hr') hr
  | stepDown ht hb => exact nomatch (congrArg Ballot.role hb).symm.trans hr'
  | stand => cases hr'
  | @refuse m _ ho =>
    subst ho
    by_cases ht : m.term > r.term
    · rw [observe_gt ht] at hr'
      cases hr'
    · rw [observe_le ht] at hr'
      exact absurd hr' hr
  | @grant m ht hv hl =>
    have hobs : (r.observe (-1) m.term).role = .leader := hr'
    by_cases ht : m.term > r.term
    · rw [observe_gt ht] at hobs
      cases hobs
    · rw [observe_le ht] at hobs
      exact absurd hobs hr
  | count hc => exact hc
  | elect hc => exact hc

/-- A new candidate is in a new term. -/
theorem term_of_candidate {r : Raft} (hb : BallotStep r i r' ms) (hr : r.role ≠ .candidate)
    (hr' : r'.role = .candidate) : r.term < r'.term := by
  cases hb with
  | keep hb => exact absurd ((congrArg Ballot.role hb).symm.trans hr') hr
  | stepDown ht hb => exact ht
  | stand => exact Nat.lt_succ_self _
  | @refuse m _ ho =>
    subst ho
    by_cases ht : m.term > r.term
    · rw [observe_gt ht]
      exact ht
    · rw [observe_le ht] at hr'
      exact absurd hr' hr
  | @grant m ht hv hl =>
    have hobs : (r.observe (-1) m.term).role = .candidate := hr'
    by_cases hgt : m.term > r.term
    · show r.term < (r.observe (-1) m.term).term
      rw [observe_gt hgt]
      exact hgt
    · rw [observe_le hgt] at hobs
      exact absurd hobs hr
  | count hc => exact absurd hc hr
  | elect hc => exact absurd hc hr

/-- The cluster that shows `c` after the core of `n` has come to state `r'`. -/
def display (s : Cluster) (n : Int) (r' : Raft) (ms : List RaftMessage)
    (es new : List Envelope) : Cluster where
  ids := s.ids
  servers := Function.update s.servers n { raft := r', alive := true }
  net := es ++ new
  history := s.history ++ [{ node := n, pre := s.raft n, post := r', pushed := ms }]

theorem display_raft (s : Cluster) (n : Int) (r' : Raft) (ms : List RaftMessage)
    (es new : List Envelope) (a : Int) :
    (display s n r' ms es new).raft a = if a = n then r' else s.raft a := by
  show (Function.update s.servers n _ a).raft = _
  rw [Function.update_apply]
  split <;> rfl

theorem display_acts (s : Cluster) (n : Int) (r' : Raft) (ms : List RaftMessage)
    (new : List Envelope) : s.Acts n r' ms new (display s n r' ms s.net new) where
  ids := rfl
  self := by rw [display_raft, if_pos rfl]
  other := fun a ha => by rw [display_raft, if_neg ha]
  net := rfl
  history := rfl

theorem shade_congr {r : Raft} {p q : Prop} [Decidable p] [Decidable q] (h : p ↔ q) :
    shade r p = shade r q := by
  unfold shade
  simp only [h]

theorem act (h : Shows s c) (hv : VoteInv s v) (hl : c.Live n) (hin : InHand s v n caller i)
    (hg : c.WinnerKeepsVote n i) :
    ∃ s' v', VoteInv s' v' ∧ Shows s' (c.act n caller i) := by
  have hb := react_ballot (c.raft n) i
  have hself := h.won_act_self hv hl caller i
  have hcasts : Casts s v n (shade ((c.raft n).react i).raft ((c.act n caller i).Won n))
      ((((c.raft n).react i).pushed.filter RaftMessage.isVote).filterMap (route n caller)) := by
    by_cases hw : c.Won n
    · rw [shade_congr (q := ((c.raft n).react i).raft.term = (c.raft n).term)]
      · exact h.casts_of_won hv hl.1 hin hg hw hb
      · rw [hself]
        constructor
        · rintro (hold | hnew)
          · exact hold.2
          · exact absurd (candidate_of_elected hb hnew.1 hnew.2) (h.runs n hw)
        · exact fun ht => .inl ⟨hw, ht⟩
    · have hr : shade ((c.raft n).react i).raft ((c.act n caller i).Won n) =
          ((c.raft n).react i).raft := by
        unfold shade
        split
        next hw' =>
          rcases hself.mp hw' with hold | hnew
          · exact absurd hold.1 hw
          · rw [← hnew.2]
        next => rfl
      rw [hr]
      exact h.casts_of_not_won hv hl.1 hin hw hb
  rw [← filter_route] at hcasts
  refine ⟨_, _, hv.acts (h.ids ▸ hl.1) (display_acts s n _ ((c.raft n).react i).pushed _) hcasts,
    ?_⟩
  constructor
  case ids => rw [act_ids]; exact h.ids
  case net => rw [act_net hl, ← h.net]; rfl
  case raft =>
    intro a
    rw [display_raft, act_raft hl]
    by_cases ha : a = n
    · rw [if_pos ha, if_pos ha, ha]
    · rw [if_neg ha, if_neg ha, h.raft a]
      exact shade_congr (won_act_other hl ha).symm
  case elections =>
    intro x hx hxl
    rw [act_history hl] at hx
    rcases List.mem_append.mp hx with hx | hx
    · obtain ⟨y, hy, hrest⟩ := h.elections x hx hxl
      exact ⟨y, List.mem_append_left _ hy, hrest⟩
    · obtain rfl := List.mem_singleton.mp hx
      have hw : ¬ c.Won n := fun hw =>
        h.runs n hw (candidate_of_elected hb hxl.1 hxl.2)
      refine ⟨_, List.mem_append_right _ (List.mem_singleton.mpr rfl), ⟨?_, ?_⟩, rfl, ?_⟩
      · show (s.raft n).role ≠ .leader
        rw [h.not_won hw]
        exact hxl.1
      · rw [shade, if_pos (hself.mpr (.inr hxl))]
      · rw [shade, if_pos (hself.mpr (.inr hxl))]
  case leads =>
    intro a hr
    rw [act_raft hl] at hr
    by_cases ha : a = n
    · subst ha
      rw [if_pos rfl] at hr
      by_cases hold : (c.raft a).role = .leader
      · exact hself.mpr (.inl ⟨h.leads a hold, (hb.of_leader hr).1⟩)
      · exact hself.mpr (.inr ⟨hold, hr⟩)
    · rw [if_neg ha] at hr
      exact (won_act_other hl ha).mpr (h.leads a hr)
  case runs =>
    intro a hw hr
    rw [act_raft hl] at hr
    by_cases ha : a = n
    · subst ha
      rw [if_pos rfl] at hr
      rcases hself.mp hw with ⟨hold, ht⟩ | hnew
      · have hlt := term_of_candidate hb (h.runs a hold) hr
        omega
      · rw [hnew.2] at hr
        cases hr
    · rw [if_neg ha] at hr
      exact h.runs a ((won_act_other hl ha).mp hw) hr

end Step

/-! ### Crashes -/

section Crash

variable {d : DurableCluster} {n : Int}

/-- Messages may be lost, any number at once. -/
theorem voteInv_sublist (hv : VoteInv s v) {es : List Envelope} (he : es.Sublist s.net) :
    VoteInv { s with net := es } v where
  members := hv.members
  ident := hv.ident
  peers := hv.peers
  voter := hv.voter
  stood := hv.stood
  held := hv.held
  leads := hv.leads
  runs := hv.runs
  request := fun e hm => hv.request e (he.subset hm)
  once := fun a b t => Nat.le_trans he.countP_le (hv.once a b t)
  granted := fun e hm => hv.granted e (he.subset hm)
  counted := fun a ha hr =>
    Nat.le_trans (Nat.add_le_add_left he.countP_le _) (hv.counted a ha hr)
  elected := hv.elected

theorem kill (h : Shows s d.cluster) :
    Shows { s with net := s.net.filter fun e => !diesWith n e } (d.kill n) := by
  have hw : ∀ a, (d.kill n).Won a ↔ d.cluster.Won a := by
    intro a
    unfold Won
    rw [kill_raft]
    rfl
  constructor
  case ids => exact h.ids
  case net => exact congrArg (List.filter fun e => !diesWith n e) h.net
  case raft =>
    intro a
    rw [kill_raft]
    exact (h.raft a).trans (shade_congr (hw a).symm)
  case elections => exact h.elections
  case leads =>
    intro a hr
    rw [kill_raft] at hr
    exact (hw a).mpr (h.leads a hr)
  case runs =>
    intro a hwa
    rw [kill_raft]
    exact h.runs a ((hw a).mp hwa)

/-- A candidate that gives up its candidacy keeps its vote. -/
theorem casts_retire {r r' : Raft} {es : List Envelope} (hc : Casts s v n r es)
    (hr : r.role = .candidate) (hid : r'.id = r.id)
    (hpeers : r'.peers.map (·.id) = r.peers.map (·.id)) (hterm : r'.term = r.term)
    (hvote : r'.votedFor = r.votedFor) (hrole : r'.role = .follower) : Casts s v n r' es := by
  have hrec : recordVote v n r' = recordVote v n r := by
    unfold recordVote
    rw [hterm, hvote]
  constructor
  case id => exact hid.trans hc.id
  case peers => exact hpeers.trans hc.peers
  case term => exact hterm.symm ▸ hc.term
  case fresh => rw [hterm, hvote]; exact hc.fresh
  case stood => rw [hterm, hvote]; exact hc.stood
  case held => rw [hterm, hvote]; exact fun _ => hc.held (by rw [hr]; exact nofun)
  case leads => rw [hrole]; exact nofun
  case runs => rw [hrole]; exact nofun
  case request => rw [hterm, hrec]; exact hc.request
  case pending => rw [hterm, hvote]; exact hc.pending
  case once => exact hc.once
  case granted => rw [hrec]; exact hc.granted
  case counted => rw [hrole]; exact nofun
  case counted_other => rw [hrec]; exact hc.counted_other
  case elected => rw [hrole]; exact fun _ => nofun

theorem restart_id (n : Int) (ids : List Int) (file : Option RaftPersistData) :
    (restart n ids file).id = n := by
  cases file <;> rfl

theorem restart_role (n : Int) (ids : List Int) (file : Option RaftPersistData) :
    (restart n ids file).role = .follower := by
  cases file <;> rfl

theorem restart_peers (n : Int) (ids : List Int) (file : Option RaftPersistData) :
    (restart n ids file).peers.map (·.id) = ids := by
  have hp : (restart n ids file).peers = ids.map fun i => { id := i } := by
    cases file <;> rfl
  rw [hp, List.map_map]
  exact List.map_id ids

/-- A restart casts no vote and takes none back. -/
theorem casts_restart (h : Shows s d.cluster) (hv : VoteInv s v) (hp : d.Pledged)
    (hn : n ∈ d.cluster.ids) :
    Casts s v n (shade (restart n d.cluster.ids (d.files n)) (d.cluster.Won n)) [] := by
  have hmem : n ∈ s.ids := h.ids ▸ hn
  have hid : (restart n d.cluster.ids (d.files n)).id = (s.raft n).id := by
    rw [restart_id, hv.ident n hmem]
  have hpeers : (restart n d.cluster.ids (d.files n)).peers.map (·.id) =
      (s.raft n).peers.map (·.id) := by
    rw [restart_peers, hv.peers n hmem, h.ids]
  have hterm : (restart n d.cluster.ids (d.files n)).term = (s.raft n).term :=
    (congrArg Prod.fst (hp n)).trans (h.term n).symm
  have hvote : (restart n d.cluster.ids (d.files n)).votedFor = (s.raft n).votedFor := by
    have hs : (s.raft n).votedFor = (d.cluster.raft n).votedFor := by
      by_cases hw : d.cluster.Won n
      · rw [h.won hw]
      · rw [h.not_won hw]
    exact (congrArg Prod.snd (hp n)).trans hs.symm
  have hrole := restart_role n d.cluster.ids (d.files n)
  generalize hr : restart n d.cluster.ids (d.files n) = r at hid hpeers hterm hvote hrole ⊢
  by_cases hw : d.cluster.Won n
  · rw [shade, if_pos hw]
    refine hv.casts_same hmem silent_nil hid hpeers hterm ?_ hvote nofun
    rw [h.won hw]
  · have hnl : (s.raft n).role ≠ .leader := by
      rw [h.not_won hw]
      exact fun hl => hw (h.leads n hl)
    rw [shade, if_neg hw]
    cases hs : (s.raft n).role with
    | follower =>
      refine hv.casts_same hmem silent_nil hid hpeers hterm (hrole.trans hs.symm) hvote ?_
      rw [hrole]
      exact nofun
    | candidate =>
      -- as long as it stands, it has counted at most the votes that are on record
      have hc : Casts s v n { r with role := .candidate, voteCount := (s.raft n).voteCount }
          [] := by
        refine hv.casts_same hmem silent_nil hid hpeers hterm hs.symm hvote fun _ => ?_
        show (s.raft n).voteCount + s.net.countP (isGrant n r.term) ≤ votesFor s.ids v n r.term
        rw [hterm]
        exact hv.counted n hmem hs
      exact casts_retire hc rfl rfl rfl rfl rfl hrole
    | leader => exact absurd hs hnl

theorem boot (h : Shows s d.cluster) (hv : VoteInv s v) (hp : d.Pledged)
    (hn : n ∈ d.cluster.ids) : ∃ s' v', VoteInv s' v' ∧ Shows s' (d.boot n) := by
  have hterm : ∀ a, ((d.boot n).raft a).term = (d.cluster.raft a).term := by
    intro a
    rw [boot_raft]
    split
    next ha => rw [ha]; exact congrArg Prod.fst (hp n)
    next => rfl
  have hw : ∀ a, (d.boot n).Won a ↔ d.cluster.Won a := by
    intro a
    unfold Won
    rw [hterm]
    rfl
  refine ⟨_, _, hv.acts (h.ids ▸ hn) (display_acts s n _ [] []) (h.casts_restart hv hp hn), ?_⟩
  constructor
  case ids => exact h.ids
  case net => exact (List.append_nil _).trans h.net
  case raft =>
    intro a
    rw [display_raft, boot_raft]
    by_cases ha : a = n
    · rw [if_pos ha, if_pos ha, ha]
      exact shade_congr (hw n).symm
    · rw [if_neg ha, if_neg ha, h.raft a]
      exact shade_congr (hw a).symm
  case elections =>
    intro x hx hl
    obtain ⟨y, hy, hrest⟩ := h.elections x hx hl
    exact ⟨y, List.mem_append_left _ hy, hrest⟩
  case leads =>
    intro a hr
    rw [boot_raft] at hr
    split at hr
    · rw [restart_role] at hr
      cases hr
    · exact (hw a).mpr (h.leads a hr)
  case runs =>
    intro a hwa
    rw [boot_raft]
    split
    · rw [restart_role]
      exact nofun
    · exact h.runs a ((hw a).mp hwa)

end Crash

end Shows

/-! ## Runs -/

/-- The files are right, and the voting invariant holds of the cluster as it is shown. -/
def Orderly (d : DurableCluster) : Prop :=
  d.Pledged ∧ ∃ s v, VoteInv s v ∧ Shows s d.cluster

theorem orderly_init {ids : List Int} (hm : Membership ids) : (init ids).Orderly := by
  have hno : ∀ n, ¬ (Cluster.init ids).Won n := by
    rintro n ⟨x, hx, -⟩
    cases hx
  refine ⟨fun _ => rfl, Cluster.init ids, _, voteInv_init hm, ?_⟩
  constructor
  case ids => rfl
  case net => rfl
  case raft => exact fun n => (if_neg (hno n)).symm
  case elections => exact fun x hx => nomatch hx
  case leads => exact fun n hr => nomatch hr
  case runs => exact fun n hw => absurd hw (hno n)

theorem Orderly.step (h : d.Orderly) {a : Fate} {d' : DurableCluster}
    (hg : d.Obeys WinnerKeepsVote a) (hs : d.step a = some d') : d'.Orderly := by
  obtain ⟨hp, s, v, hv, hd⟩ := h
  refine ⟨hp.step hs, ?_⟩
  cases turns_of_step hs with
  | @alone a n i hi =>
    by_cases hl : d.cluster.Live n
    · refine hd.act hv hl ?_ ?_ <;>
      · cases i with
        | message m => obtain ⟨q, rfl⟩ := hi m rfl; trivial
        | _ => trivial
    · exact ⟨s, v, hv, by rw [act_dead hl]; exact hd⟩
  | @deliver k e hk he =>
    by_cases hl : d.cluster.Live e.dst
    · have hok : WinnerKeepsVote d.cluster e.dst (.message e.msg) := obeys_deliver hg hk he hl
      have hin : InHand (s.take k) v e.dst e.src (.message e.msg) :=
        hv.inHand (hd.net ▸ hk) (hd.ids ▸ hl.1)
      exact (hd.take k).act (hv.take k) hl hin hok
    · refine ⟨s.take k, v, hv.take k, ?_⟩
      rw [act_dead (take_live.not.mpr hl)]
      exact hd.take k
  | @clerk k b e m hk hm => exact ⟨_, v, (hv.take k).clerk hm, (hd.take k).post _⟩
  | @lose k => exact ⟨_, v, hv.take k, hd.take k⟩
  | rpcFailure => exact ⟨_, v, hv.rpcFailure _ _ _, hd.post _⟩
  | crash => exact ⟨_, v, Shows.voteInv_sublist hv List.filter_sublist, hd.kill⟩
  | restart hn => exact hd.boot hv hp hn

theorem Reaches.orderly {ids : List Int} (hm : Membership ids)
    (hr : Reaches WinnerKeepsVote ids d) : d.Orderly := by
  obtain ⟨as, hr⟩ := hr
  exact hr.invariant (fun _ _ _ h hok hs => h.step hok hs) (orderly_init hm)

/-- The file of every node has its term and its vote, and Election Safety holds across
crashes and restarts, in every run in which no node that has won its term gives its vote
away in it. -/
theorem electionSafety_of_winnerKeepsVote (ids : List Int) (d : DurableCluster)
    (hm : Membership ids) (hr : Reaches WinnerKeepsVote ids d) :
    d.Pledged ∧ d.cluster.ElectionSafety := by
  obtain ⟨hp, s, v, hv, hd⟩ := hr.orderly hm
  exact ⟨hp, hd.electionSafety hv⟩

/-- Node 0 wins term 1, nodes 0 and 1 crash and start again, and node 1 wins term 2 with
the vote of node 0. -/
def leaderCrashes : List Fate :=
  [.move (.electionTimeout 0), .move (.deliver 1), .move (.deliver 1), .crash 0, .crash 1,
    .restart 0, .restart 1, .move (.electionTimeout 1), .move (.electionTimeout 1),
    .move (.deliver 5), .move (.deliver 6)]

theorem electionSafety_leaderCrashes :
    ∃ d, Reaches WinnerKeepsVote [0, 1, 2] d ∧
      (∃ x ∈ d.cluster.history, x.BecomesLeader ∧ x.node = 0) ∧
        (∃ x ∈ d.cluster.history, x.BecomesLeader ∧ x.node = 1) ∧
          d.Pledged ∧ d.cluster.ElectionSafety := by
  obtain ⟨d, hr, hp⟩ := Reaches.of_exec WinnerKeepsVote [0, 1, 2] leaderCrashes
    (fun d => decide ((∃ x ∈ d.cluster.history, x.BecomesLeader ∧ x.node = 0) ∧
      ∃ x ∈ d.cluster.history, x.BecomesLeader ∧ x.node = 1)) (by decide +kernel)
  obtain ⟨h0, h1⟩ := of_decide_eq_true hp
  exact ⟨d, hr, h0, h1,
    electionSafety_of_winnerKeepsVote [0, 1, 2] d ⟨by decide, by decide⟩ hr⟩

/-- Both stand in term 1 and node 0 wins.  After a restart it gives node 1 the vote that
it has used for itself, and no leader has voted. -/
def voteForgotten : List Fate :=
  [.move (.electionTimeout 0), .move (.electionTimeout 1), .move (.deliver 1),
    .move (.deliver 3), .crash 0, .restart 0, .move (.deliver 1), .move (.deliver 4)]

theorem restart_forgets_the_vote :
    ∃ d, Reaches LeaderKeepsVote [0, 1, 2] d ∧ ¬ d.cluster.ElectionSafety := by
  obtain ⟨d, hr, hp⟩ := Reaches.of_exec LeaderKeepsVote [0, 1, 2] voteForgotten
    (fun d => !decide d.cluster.ElectionSafety) (by decide +kernel)
  refine ⟨d, hr, fun hs => ?_⟩
  simp [hs] at hp

end DurableCluster

end WWRaftKV
