/-
One step of the cluster, seen from its parts.

`act_self`, `act_other` and their companions say what one atomic step of a core
changes.  A step of the cluster is then such a step, possibly after a message has
left the bag, or a change of the bag alone.
-/
import Mathlib.Data.List.Perm.Basic
import WWRaftKV.Core.Ballot
import WWRaftKV.Cluster.Model

namespace WWRaftKV

namespace Cluster

variable {c : Cluster} {n caller : Int} {i : Input}

/-- The core of `n` can take a step. -/
def Live (c : Cluster) (n : Int) : Prop := n ∈ c.ids ∧ (c.servers n).alive = true

theorem act_dead (h : ¬ c.Live n) : c.act n caller i = c := if_neg h

theorem act_live (h : c.Live n) :
    c.act n caller i =
      { c with
        servers := Function.update c.servers n {
          raft := ((c.raft n).react i).raft, alive := !((c.raft n).react i).thrown }
        net := c.net ++ ((c.raft n).react i).pushed.filterMap (route n caller)
        history := c.history ++ [{
          node := n
          pre := c.raft n
          post := ((c.raft n).react i).raft
          pushed := ((c.raft n).react i).pushed }] } := if_pos h

theorem act_ids (c : Cluster) (n caller : Int) (i : Input) :
    (c.act n caller i).ids = c.ids := by
  by_cases h : c.Live n
  · rw [act_live h]
  · rw [act_dead h]

theorem act_raft (h : c.Live n) (a : Int) :
    (c.act n caller i).raft a = if a = n then ((c.raft n).react i).raft else c.raft a := by
  rw [act_live h]
  simp only [raft, Function.update_apply]
  split <;> rfl

theorem act_raft_self (h : c.Live n) :
    (c.act n caller i).raft n = ((c.raft n).react i).raft := by
  rw [act_raft h, if_pos rfl]

theorem act_raft_other (h : c.Live n) {a : Int} (ha : a ≠ n) :
    (c.act n caller i).raft a = c.raft a := by
  rw [act_raft h, if_neg ha]

theorem act_net (h : c.Live n) :
    (c.act n caller i).net =
      c.net ++ ((c.raft n).react i).pushed.filterMap (route n caller) := by
  rw [act_live h]

theorem act_history (h : c.Live n) :
    (c.act n caller i).history =
      c.history ++ [{
        node := n
        pre := c.raft n
        post := ((c.raft n).react i).raft
        pushed := ((c.raft n).react i).pushed }] := by
  rw [act_live h]

theorem act_alive (h : c.Live n) (a : Int) :
    ((c.act n caller i).servers a).alive =
      if a = n then !((c.raft n).react i).thrown else (c.servers a).alive := by
  rw [act_live h]
  simp only [Function.update_apply]
  split <;> rfl

/-- `c'` is `c` after a step of the core of `n` that ended in `r'`, pushed `ms` and put
`new` into the bag. -/
structure Acts (c : Cluster) (n : Int) (r' : Raft) (ms : List RaftMessage)
    (new : List Envelope) (c' : Cluster) : Prop where
  ids : c'.ids = c.ids
  self : c'.raft n = r'
  other : ∀ a, a ≠ n → c'.raft a = c.raft a
  net : c'.net = c.net ++ new
  history : c'.history =
    c.history ++ [{ node := n, pre := c.raft n, post := r', pushed := ms }]

theorem acts_act (caller : Int) (i : Input) (h : c.Live n) :
    c.Acts n ((c.raft n).react i).raft ((c.raft n).react i).pushed
      (((c.raft n).react i).pushed.filterMap (route n caller)) (c.act n caller i) where
  ids := act_ids c n caller i
  self := act_raft_self h
  other := fun _ ha => act_raft_other h ha
  net := act_net h
  history := act_history h

namespace Acts

variable {c' : Cluster} {r' : Raft} {ms : List RaftMessage} {new : List Envelope}

theorem mem_net (h : c.Acts n r' ms new c') {e : Envelope} (he : e ∈ c'.net) :
    e ∈ c.net ∨ e ∈ new := by
  rw [h.net] at he
  exact List.mem_append.mp he

theorem mem_history (h : c.Acts n r' ms new c') {s : CoreStep} (hs : s ∈ c'.history) :
    s ∈ c.history ∨ s = { node := n, pre := c.raft n, post := r', pushed := ms } := by
  rw [h.history] at hs
  exact (List.mem_append.mp hs).imp_right List.mem_singleton.mp

theorem raft_term (h : c.Acts n r' ms new c') (ht : (c.raft n).term ≤ r'.term) (a : Int) :
    (c.raft a).term ≤ (c'.raft a).term := by
  by_cases hna : a = n
  · rw [hna, h.self]
    exact ht
  · rw [h.other a hna]

/-- A property of nodes that the step establishes at `n` and that holds elsewhere. -/
theorem forall_raft (h : c.Acts n r' ms new c') {P : Int → Raft → Prop} (hn : P n r')
    (ho : ∀ a ∈ c.ids, a ≠ n → P a (c.raft a)) : ∀ a ∈ c'.ids, P a (c'.raft a) := by
  intro a ha
  rw [h.ids] at ha
  by_cases hna : a = n
  · rw [hna, h.self]
    exact hn
  · rw [h.other a hna]
    exact ho a ha hna

end Acts

theorem live_of_act (h : c.Live n) {a : Int} (ha : (c.act n caller i).Live a) :
    (a = n ∧ ((c.raft n).react i).thrown = false) ∨ (a ≠ n ∧ c.Live a) := by
  obtain ⟨hmem, halive⟩ := ha
  rw [act_ids] at hmem
  rw [act_alive h] at halive
  by_cases han : a = n
  · rw [if_pos han] at halive
    exact .inl ⟨han, by simpa using halive⟩
  · rw [if_neg han] at halive
    exact .inr ⟨han, hmem, halive⟩

@[simp] theorem take_raft (c : Cluster) (k : Nat) (a : Int) : (c.take k).raft a = c.raft a :=
  rfl

theorem take_live {k : Nat} : (c.take k).Live n ↔ c.Live n := Iff.rfl

theorem take_net_perm {k : Nat} {e : Envelope} (h : c.net[k]? = some e) :
    c.net.Perm (e :: (c.take k).net) := by
  obtain ⟨hk, rfl⟩ := List.getElem?_eq_some_iff.mp h
  exact (List.getElem_cons_eraseIdx_perm hk).symm

theorem mem_of_mem_take {k : Nat} {e : Envelope} (h : e ∈ (c.take k).net) : e ∈ c.net :=
  (List.eraseIdx_sublist c.net k).subset h

/-- The bag with more messages in it. -/
def post (c : Cluster) (es : List Envelope) : Cluster := { c with net := c.net ++ es }

/-- What a step of the cluster is.  The constructors name the steps that matter:
an input that is no message, a message handled by its receiver, an answer of a
clerk, a lost message and a failed call. -/
inductive Moves (c : Cluster) : Action → Cluster → Prop
  | timer {a : Action} {n : Int} {i : Input} (hi : ∀ m, i ≠ .message m) :
      Moves c a (c.act n n i)
  | client {n : Int} {m : KVOperationRequestMessage} :
      Moves c (.client n m) (c.act n n (.message (.kvOperationRequest m)))
  | deliver {k : Nat} {e : Envelope} (hk : c.net[k]? = some e)
      (he : e.msg.forClerk = false) :
      Moves c (.deliver k) ((c.take k).act e.dst e.src (.message e.msg))
  | clerk {k : Nat} {b : Bool} {e : Envelope} {m : RaftMessage} (hk : c.net[k]? = some e)
      (hm : clerkAnswer b e.msg = some m) :
      Moves c (.clerk k b) ((c.take k).post [{ e with msg := m }])
  | lose {k : Nat} : Moves c (.lose k) (c.take k)
  | rpcFailure {caller callee : Int} {kind : RpcKind} :
      Moves c (.rpcFailure caller callee kind)
        (c.post [{ src := callee, dst := caller, msg := kind.defaultResponse callee }])

theorem moves_of_step {a : Action} {c' : Cluster} (h : c.step a = some c') :
    Moves c a c' := by
  cases a with
  | electionTimeout n =>
    obtain rfl := Option.some.inj h
    exact .timer fun _ => nofun
  | heartbeatTimeout n =>
    obtain rfl := Option.some.inj h
    exact .timer fun _ => nofun
  | client n m =>
    obtain rfl := Option.some.inj h
    exact .client
  | deliver k =>
    simp only [step] at h
    cases hk : c.net[k]? with
    | none => simp [hk] at h
    | some e =>
      simp only [hk] at h
      by_cases he : e.msg.forClerk = true
      · simp [he] at h
      · rw [if_neg he] at h
        obtain rfl := Option.some.inj h
        exact .deliver hk (by simpa using he)
  | clerk k b =>
    simp only [step] at h
    cases hk : c.net[k]? with
    | none => simp [hk] at h
    | some e =>
      simp only [hk] at h
      cases hm : clerkAnswer b e.msg with
      | none => simp [hm] at h
      | some m =>
        simp only [hm] at h
        obtain rfl := Option.some.inj h
        exact .clerk hk hm
  | lose k =>
    obtain rfl := Option.some.inj h
    exact .lose
  | rpcFailure caller callee kind =>
    obtain rfl := Option.some.inj h
    exact .rpcFailure

theorem obeys_deliver {ok : Cluster → Int → Input → Prop} {k : Nat} {e : Envelope}
    (h : c.Obeys ok (.deliver k)) (hk : c.net[k]? = some e) (he : e.msg.forClerk = false)
    (hl : c.Live e.dst) : ok c e.dst (.message e.msg) := by
  have ht : c.turn (.deliver k) = some (e.dst, e.src, .message e.msg) := by
    simp [turn, hk, he]
  exact h _ (Option.mem_def.mpr ht) hl

end Cluster

end WWRaftKV
