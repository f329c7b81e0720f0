/-
The leaders that the nodes of a cluster know.

A node signs the requests of a leader with its own id, and learns a leader from nowhere else.
So no node ever knows a leader that is not configured.  But not every node that hears from the
leader of its term becomes its follower.
-/
import WWRaftKV.Cluster.Election
import WWRaftKV.Node.Leader

namespace WWRaftKV

open Raft (FromPeers KnowsWithin Positions RedirectsWithin)

namespace Cluster

/-! ## The invariant -/

/-- What is said of leaders is said of configured nodes. -/
structure LeaderInv (ids : List Int) (c : Cluster) : Prop where
  members : c.ids = ids
  nodes : ∀ n ∈ ids, (c.raft n).KnowsWithin ids
  net : ∀ e ∈ c.net, ∀ x ∈ e.msg.fromLeader, x.1 ∈ ids

section Messages

variable {n caller : Int} {m : RaftMessage} {e : Envelope}

/-- The way to the receiver changes neither the sender nor the term. -/
theorem fromLeader_route (h : route n caller m = some e) :
    e.msg.fromLeader = m.fromLeader := by
  cases m <;> cases h <;> rfl

theorem fromLeader_clerkAnswer {b : Bool} {q : RaftMessage} (h : clerkAnswer b m = some q) :
    q.fromLeader = none := by
  cases m <;> cases h <;> rfl

theorem fromLeader_default (callee : Int) (kind : RpcKind) :
    (kind.defaultResponse callee).fromLeader = none := by
  cases kind <;> rfl

end Messages

section Invariant

variable {ids : List Int} {c c' : Cluster} {n caller : Int} {i : Input}

theorem leaderInv_init (ids : List Int) : LeaderInv ids (init ids) where
  members := rfl
  nodes := fun _ hn => restart_knowsWithin hn none
  net := by
    intro e he
    cases he

theorem LeaderInv.act (h : LeaderInv ids c) (hi : ∀ x ∈ i.fromLeader, x.1 ∈ ids) :
    LeaderInv ids (c.act n caller i) := by
  by_cases hl : c.Live n
  · have hn : n ∈ ids := h.members ▸ hl.1
    have hknows := h.nodes n hn
    constructor
    · exact (act_ids c n caller i).trans h.members
    · intro a ha
      rw [act_raft hl]
      split
      · exact hknows.react hi
      · exact h.nodes a ha
    · intro e he x hx
      rw [act_net hl] at he
      rcases List.mem_append.mp he with he | he
      · exact h.net e he x hx
      · obtain ⟨m, hm, hroute⟩ := List.mem_filterMap.mp he
        rw [fromLeader_route hroute] at hx
        rw [Raft.react_signed hknows hi m hm x hx]
        exact hknows.self
  · rw [act_dead hl]
    exact h

/-- The bag loses messages and gains some that are no requests of a leader. -/
theorem LeaderInv.bag (h : LeaderInv ids c) {net : List Envelope}
    (hnet : ∀ e ∈ net, e ∈ c.net ∨ e.msg.fromLeader = none) :
    LeaderInv ids { c with net := net } where
  members := h.members
  nodes := h.nodes
  net := by
    intro e he x hx
    rcases hnet e he with he | he
    · exact h.net e he x hx
    · rw [he] at hx
      cases hx

theorem LeaderInv.take (h : LeaderInv ids c) (k : Nat) : LeaderInv ids (c.take k) :=
  h.bag fun _ he => .inl (mem_of_mem_take he)

theorem LeaderInv.post (h : LeaderInv ids c) {e : Envelope} (he : e.msg.fromLeader = none) :
    LeaderInv ids (c.post [e]) := by
  apply h.bag
  intro x hx
  rcases List.mem_append.mp hx with hx | hx
  · exact .inl hx
  · rw [List.mem_singleton.mp hx]
    exact .inr he

theorem LeaderInv.step (h : LeaderInv ids c) {a : Action} (hs : c.step a = some c') :
    LeaderInv ids c' := by
  cases moves_of_step hs with
  | @timer _ _ i hi =>
    apply h.act
    intro x hx
    cases i with
    | message m => exact absurd rfl (hi m)
    | _ => cases hx
  | client =>
    apply h.act
    intro x hx
    cases hx
  | deliver hk he => exact (h.take _).act (h.net _ (List.mem_of_getElem? hk))
  | clerk hk hm => exact (h.take _).post (fromLeader_clerkAnswer hm)
  | lose => exact h.take _
  | rpcFailure => exact h.post (fromLeader_default _ _)

theorem Reaches.leaderInv (hr : Reaches anyStep ids c) : LeaderInv ids c := by
  obtain ⟨as, hr⟩ := hr
  exact hr.invariant (fun _ _ _ h _ hs => h.step hs) (leaderInv_init ids)

end Invariant

/-! ## What follows -/

/-- In a cluster every client operation is redirected to a configured position if and only
if the node leads or knows a leader. -/
theorem redirects_within (ids : List Int) (hids : Positions ids) (c : Cluster)
    (hr : Reaches anyStep ids c) (n : Int) (hn : n ∈ ids) (m : KVOperationRequestMessage) :
    RedirectsWithin ids (c.raft n) m ↔
      ((c.raft n).role ≠ .leader → (c.raft n).leaderId ≠ -1) :=
  (hr.leaderInv.nodes n hn).redirects hids

/-- Every node that hears from the leader of its term becomes its follower. -/
def FollowLeaders (c : Cluster) : Prop :=
  ∀ a n caller i, c.turn a = some (n, caller, i) → c.Live n → (c.raft n).FollowsLeader i

/-- Nodes 0 and 1 stand in term 1, and node 0 wins it with the vote of node 2. -/
def contestedTerm : List Action :=
  [.electionTimeout 0, .electionTimeout 1, .deliver 1, .deliver 3]

/-- The heartbeat of node 0 leaves node 1 a candidate of the term that node 0 leads. -/
theorem candidate_stays :
    ¬ ∀ (ids : List Int) (c : Cluster), Membership ids → Reaches anyStep ids c →
      c.FollowLeaders := by
  intro h
  obtain ⟨c, hr, hc⟩ := Reaches.of_exec anyStep [0, 1, 2] contestedTerm
    (fun c => decide (c.ids = [0, 1, 2] ∧ (c.servers 1).alive = true ∧
      (c.raft 0).role = .leader ∧ (c.raft 1).role = .candidate ∧ (c.raft 1).term = 1 ∧
        ∃ x ∈ c.turn (.deliver 3), x.1 = 1 ∧ x.2.2.fromLeader = some (0, 1) ∧
          ((c.raft 1).react x.2.2).raft.role = .candidate)) (by decide +kernel)
  obtain ⟨hids, halive, _, hrole, hterm, ⟨n, caller, i⟩, ht, hn, hfrom, hstays⟩ :=
    of_decide_eq_true hc
  obtain rfl : n = 1 := hn
  have hlive : c.Live 1 := ⟨by simp [hids], halive⟩
  have hhears : (c.raft 1).Hears (0, 1) := by
    refine ⟨Nat.le_of_eq hterm, ?_⟩
    rw [hrole]
    exact fun hl => absurd hl.1 (by decide)
  have hfollows := h [0, 1, 2] c ⟨by decide, by decide⟩ hr (.deliver 3) 1 caller i ht hlive
    (0, 1) hfrom hhears
  rw [hfollows.role] at hstays
  cases hstays

end Cluster

end WWRaftKV
