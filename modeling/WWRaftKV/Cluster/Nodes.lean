/-
Every node of a cluster is a process.

The node model follows a core, its clerk and the messages between the two.  Within a
cluster a node makes the same steps, with its peers for surroundings: `Upholds.cluster`
carries an invariant of the process over to all nodes of the cluster.
-/
import WWRaftKV.Cluster.Replication
import WWRaftKV.Node.Progress
import WWRaftKV.Node.Truth

namespace WWRaftKV

open Raft

namespace Cluster

/-! ## A node and its clerk -/

/-- The messages between the core of node `n` and its clerk. -/
def localTo (n : Int) (es : List Envelope) : List RaftMessage :=
  (es.filter fun e => e.dst = n ∧ e.msg.isLocal = true).map (·.msg)

/-- What node `n` has handed to its clerk in the run. -/
def handedAt (c : Cluster) (n : Int) : List (Int × RaftLogEntry) :=
  (c.history.filter fun s => s.node = n).flatMap CoreStep.handed

section LocalTo

variable {n a caller : Int} {e : Envelope} {es fs : List Envelope}

theorem localTo_perm (h : es.Perm fs) : (localTo n es).Perm (localTo n fs) :=
  (h.filter _).map _

theorem localTo_append (es fs : List Envelope) :
    localTo n (es ++ fs) = localTo n es ++ localTo n fs := by
  rw [localTo, List.filter_append, List.map_append]
  rfl

theorem localTo_cons_of_pos (hn : e.dst = n) (he : e.msg.isLocal = true) :
    localTo n (e :: es) = e.msg :: localTo n es := by
  simp [localTo, hn, he]

theorem localTo_cons_of_neg (h : ¬ (e.dst = n ∧ e.msg.isLocal = true)) :
    localTo n (e :: es) = localTo n es := by
  simp [localTo, h]

/-- A local message that is routed is a request to the clerk of the node itself. -/
theorem route_local {m : RaftMessage} (h : route n caller m = some e)
    (he : e.msg.isLocal = true) : e.dst = n ∧ e.msg = m ∧ m.forClerk = true := by
  cases m with
  | applyCommitLogsRequest q => exact Option.some.inj h ▸ ⟨rfl, rfl, rfl⟩
  | generateSnapshotRequest q => exact Option.some.inj h ▸ ⟨rfl, rfl, rfl⟩
  | applySnapshotRequest q => exact Option.some.inj h ▸ ⟨rfl, rfl, rfl⟩
  | requestVoteRequest q =>
    obtain rfl := Option.some.inj h
    cases he
  | requestVoteResponse q =>
    obtain rfl := Option.some.inj h
    cases he
  | appendEntriesRequest q =>
    obtain rfl := Option.some.inj h
    cases he
  | appendEntriesResponse q =>
    obtain rfl := Option.some.inj h
    cases he
  | installSnapshotRequest q =>
    obtain rfl := Option.some.inj h
    cases he
  | installSnapshotResponse q =>
    obtain rfl := Option.some.inj h
    cases he
  | _ => cases h

/-- Of what the core of `n` pushes, its requests to the clerk come back to `n`. -/
theorem localTo_route (n caller : Int) (ms : List RaftMessage) :
    localTo n (ms.filterMap (route n caller)) = ms.filter RaftMessage.forClerk := by
  induction ms with
  | nil => rfl
  | cons m ms ih =>
    by_cases hm : m.forClerk = true
    · have hroute : route n caller m = some { src := caller, dst := n, msg := m } := by
        cases m <;> first | rfl | cases hm
      have hlocal : m.isLocal = true := by
        cases m <;> first | rfl | cases hm
      rw [List.filterMap_cons_some hroute, List.filter_cons_of_pos hm, ← ih]
      exact localTo_cons_of_pos (e := { src := caller, dst := n, msg := m }) rfl hlocal
    · rw [List.filter_cons_of_neg hm, ← ih]
      cases hroute : route n caller m with
      | none => rw [List.filterMap_cons_none hroute]
      | some e =>
        rw [List.filterMap_cons_some hroute]
        apply localTo_cons_of_neg
        exact fun he => hm (route_local hroute he.2).2.2

theorem localTo_route_of_ne (ha : a ≠ n) (ms : List RaftMessage) :
    localTo a (ms.filterMap (route n caller)) = [] := by
  apply List.map_eq_nil_iff.mpr
  apply List.filter_eq_nil_iff.mpr
  intro e he hlocal
  obtain ⟨m, _, hroute⟩ := List.mem_filterMap.mp he
  obtain ⟨hdst, hmsg⟩ := of_decide_eq_true hlocal
  exact ha (hdst.symm.trans (route_local hroute hmsg).1)

end LocalTo

end Cluster

/-! ## Invariants of a process -/

namespace Upholds

variable {ok : Raft → Input → Prop} {I D : View → Prop} {v : View}

/-- Messages may leave the channel. -/
theorem thin (h : Upholds ok I D) (hv : I v) {ms ch : List RaftMessage}
    (hc : v.channel.Perm (ms ++ ch)) : I (v.withChannel ch) := by
  induction ms generalizing v with
  | nil => exact h.perm v ch hv hc
  | cons m ms ih =>
    have hd := h.drop (v.withChannel (m :: (ms ++ ch))) m (ms ++ ch) (h.perm v _ hv hc) rfl
    exact ih (v := v.withChannel (ms ++ ch)) hd (List.Perm.refl _)

end Upholds

namespace Cluster

/-- Node `n` looks like a process of which `D` holds, and `I` as long as it is alive. -/
def Mirrors (I D : View → Prop) (c : Cluster) (n : Int) : Prop :=
  ∃ v, v.raft = c.raft n ∧ v.handed = c.handedAt n ∧
    ((c.servers n).alive = true → v.channel = localTo n c.net ∧ I v) ∧ D v

section Mirrors

variable {ok : Raft → Input → Prop} {I D : View → Prop} {c c' : Cluster} {n a : Int}

/-- Only messages have moved. -/
theorem Mirrors.of_channel (h : Mirrors I D c n) (hs : c'.servers n = c.servers n)
    (hh : c'.history = c.history)
    (hc : ∀ v, v.channel = localTo n c.net → I v → I (v.withChannel (localTo n c'.net)))
    (hD : ∀ v, I v → D v) : Mirrors I D c' n := by
  obtain ⟨v, hr, hd, hi, hdead⟩ := h
  have hraft : c'.raft n = c.raft n := congrArg Server.raft hs
  have hhanded : c'.handedAt n = c.handedAt n := by rw [handedAt, hh, handedAt]
  cases halive : (c.servers n).alive with
  | true =>
    obtain ⟨hch, hv⟩ := hi halive
    have hv' := hc v hch hv
    exact ⟨v.withChannel (localTo n c'.net), hr.trans hraft.symm, hd.trans hhanded.symm,
      fun _ => ⟨rfl, hv'⟩, hD _ hv'⟩
  | false =>
    refine ⟨v, hr.trans hraft.symm, hd.trans hhanded.symm, ?_, hdead⟩
    rw [hs, halive]
    exact nofun

theorem handedAt_act (hl : c.Live n) {caller : Int} {i : Input} :
    (c.act n caller i).handedAt n = c.handedAt n ++ handedBy ((c.raft n).react i).pushed := by
  rw [handedAt, act_history hl, List.filter_append, List.flatMap_append]
  congr 1
  simp [CoreStep.handed]

theorem handedAt_act_of_ne (hl : c.Live n) (ha : a ≠ n) {caller : Int} {i : Input} :
    (c.act n caller i).handedAt a = c.handedAt a := by
  rw [handedAt, act_history hl, List.filter_append, List.flatMap_append]
  simp [handedAt, ha.symm]

/-- The core of the node itself has made a step. -/
theorem mirrors_act (h : Upholds ok I D) (hl : c.Live n) {v : View} {caller : Int} {i : Input}
    (hr : v.raft = c.raft n) (hd : v.handed = c.handedAt n)
    (hc : v.channel = i.taken ++ localTo n c.net) (hv : I v) (hg : ok (c.raft n) i) :
    Mirrors I D (c.act n caller i) n := by
  rw [← hr] at hg
  have hlocal : localTo n (c.act n caller i).net =
      localTo n c.net ++ ((c.raft n).react i).pushed.filter RaftMessage.forClerk := by
    rw [act_net hl, localTo_append, localTo_route]
  have hraft : (v.react i (localTo n c.net)).raft = (c.act n caller i).raft n := by
    rw [act_raft_self hl, View.react_raft, hr]
  have hhanded : (v.react i (localTo n c.net)).handed = (c.act n caller i).handedAt n := by
    rw [handedAt_act hl, View.react_handed, hd, hr]
  have hdies := h.dies v i _ hv hc hg
  cases ht : (v.raft.react i).thrown with
  | true =>
    refine ⟨_, hraft, hhanded, ?_, hdies⟩
    rw [act_alive hl, if_pos rfl, ← hr, ht]
    exact nofun
  | false =>
    have hv' := h.core v i _ hv hc hg ht
    have hperm : (v.react i (localTo n c.net)).channel.Perm
        ((((c.raft n).react i).pushed.filter fun m => !m.forClerk) ++
          localTo n (c.act n caller i).net) := by
      rw [hlocal, View.react_channel, hr]
      have hsplit := List.filter_append_perm RaftMessage.forClerk ((c.raft n).react i).pushed
      refine ((hsplit.symm.append_left _).trans ?_)
      rw [← List.append_assoc]
      exact List.perm_append_comm
    have hthin := h.thin hv' hperm
    exact ⟨(v.react i (localTo n c.net)).withChannel (localTo n (c.act n caller i).net),
      hraft, hhanded, fun _ => ⟨rfl, hthin⟩, h.weak _ hthin⟩

/-- The core of another node has made a step. -/
theorem mirrors_act_of_ne (hm : Mirrors I D c a) (ha : a ≠ n)
    {caller : Int} {i : Input} : Mirrors I D (c.act n caller i) a := by
  by_cases hl : c.Live n
  · obtain ⟨v, hr, hd, hi, hdead⟩ := hm
    refine ⟨v, ?_, ?_, ?_, hdead⟩
    · rw [act_raft_other hl ha]
      exact hr
    · rw [handedAt_act_of_ne hl ha]
      exact hd
    · rw [act_alive hl, if_neg ha, act_net hl, localTo_append, localTo_route_of_ne ha,
        List.append_nil]
      exact hi
  · rw [act_dead hl]
    exact hm

theorem take_eq_self {k : Nat} (hk : c.net[k]? = none) : c.take k = c := by
  rw [take, List.eraseIdx_of_length_le (List.getElem?_eq_none_iff.mp hk)]

/-- A message has left the bag. -/
theorem mirrors_take (h : Upholds ok I D) (hm : Mirrors I D c a) (k : Nat) :
    Mirrors I D (c.take k) a := by
  cases hk : c.net[k]? with
  | none =>
    rw [take_eq_self hk]
    exact hm
  | some e =>
    show Mirrors I D (c.take k) a
    refine hm.of_channel rfl rfl ?_ h.weak
    intro v hc hv
    have hp := localTo_perm (n := a) (take_net_perm hk)
    by_cases he : e.dst = a ∧ e.msg.isLocal = true
    · rw [localTo_cons_of_pos he.1 he.2, ← hc] at hp
      have hp' : v.channel.Perm ([e.msg] ++ localTo a (c.take k).net) := hp
      exact h.thin hv hp'
    · rw [localTo_cons_of_neg he] at hp
      exact h.perm v _ hv (hc ▸ hp)

/-- The cluster once the message that the core handles has left the bag. -/
def without (c : Cluster) : Action → Cluster
  | .deliver k => c.take k
  | _ => c

theorem mirrors_without (h : Upholds ok I D) (hm : Mirrors I D c a) (b : Action) :
    Mirrors I D (c.without b) a := by
  cases b with
  | deliver k => exact mirrors_take h hm k
  | _ => exact hm

/-- A node faces its next input as a process does: with the input in its channel. -/
theorem mirrors_faces (h : Upholds ok I D) (hm : Mirrors I D c n) {b : Action} {caller : Int}
    {i : Input} (ht : c.turn b = some (n, caller, i)) (hl : c.Live n) :
    ∃ v, v.raft = c.raft n ∧ v.handed = c.handedAt n ∧
      v.channel = i.taken ++ localTo n (c.without b).net ∧ I v := by
  obtain ⟨v, hr, hd, hi, _⟩ := hm
  obtain ⟨hc, hv⟩ := hi hl.2
  clear hi
  cases b with
  | electionTimeout m =>
    obtain ⟨rfl, rfl, rfl⟩ := Option.some.inj ht
    exact ⟨v, hr, hd, hc, hv⟩
  | heartbeatTimeout m =>
    obtain ⟨rfl, rfl, rfl⟩ := Option.some.inj ht
    exact ⟨v, hr, hd, hc, hv⟩
  | client m q =>
    obtain ⟨rfl, rfl, rfl⟩ := Option.some.inj ht
    refine ⟨v.withChannel (.kvOperationRequest q :: v.channel), hr, hd, ?_,
      h.receive v _ hv rfl⟩
    exact congrArg (RaftMessage.kvOperationRequest q :: ·) hc
  | deliver k =>
    unfold turn at ht
    cases hk : c.net[k]? with
    | none => simp [hk] at ht
    | some e =>
      simp only [hk] at ht
      split at ht
      · cases ht
      obtain ⟨rfl, rfl, rfl⟩ := Option.some.inj ht
      have hp := localTo_perm (n := e.dst) (take_net_perm hk)
      refine ⟨v.withChannel (e.msg :: localTo e.dst (c.take k).net), hr, hd, rfl, ?_⟩
      by_cases he : e.msg.isLocal = true
      · rw [localTo_cons_of_pos rfl he, ← hc] at hp
        exact h.perm v _ hv hp
      · rw [localTo_cons_of_neg fun hd => he hd.2, ← hc] at hp
        let w := v.withChannel (e.msg :: v.channel)
        have hw : I w := h.receive v e.msg hv (Bool.eq_false_iff.mpr he)
        exact h.perm w _ hw (hp.cons e.msg)
  | _ => cases ht

/-- The clerk has answered. -/
theorem mirrors_clerk (h : Upholds ok I D) (hm : Mirrors I D c a) {k : Nat} {b : Bool}
    {e : Envelope} {m : RaftMessage} (hk : c.net[k]? = some e)
    (hb : clerkAnswer b e.msg = some m) :
    Mirrors I D ((c.take k).post [{ e with msg := m }]) a := by
  have hlocal : e.msg.isLocal = true ∧ m.isLocal = true := by
    revert hb
    cases e.msg with
    | applyCommitLogsRequest q => exact fun hb => Option.some.inj hb ▸ ⟨rfl, rfl⟩
    | generateSnapshotRequest q => exact fun hb => Option.some.inj hb ▸ ⟨rfl, rfl⟩
    | applySnapshotRequest q => exact fun hb => Option.some.inj hb ▸ ⟨rfl, rfl⟩
    | _ => exact nofun
  refine hm.of_channel rfl rfl ?_ h.weak
  intro v hc hv
  have hp := localTo_perm (n := a) (take_net_perm hk)
  show I (v.withChannel (localTo a ((c.take k).net ++ [{ e with msg := m }])))
  rw [localTo_append]
  by_cases ha : e.dst = a
  · rw [localTo_cons_of_pos ha hlocal.1, ← hc] at hp
    rw [localTo_cons_of_pos (e := { e with msg := m }) ha hlocal.2]
    let w := v.withChannel (m :: localTo a (c.take k).net)
    have hw : I w := h.answer (v.withChannel (e.msg :: localTo a (c.take k).net)) b m e.msg _
      (h.perm v _ hv hp) rfl hb
    exact h.perm w _ hw (List.perm_append_singleton _ _).symm
  · have hne : ¬ (e.dst = a ∧ e.msg.isLocal = true) := fun he => ha he.1
    have hne' : ¬ (({ e with msg := m } : Envelope).dst = a ∧ m.isLocal = true) :=
      fun he => ha he.1
    rw [localTo_cons_of_neg hne, ← hc] at hp
    rw [localTo_cons_of_neg hne']
    show I (v.withChannel (localTo a (c.take k).net ++ []))
    rw [List.append_nil]
    exact h.perm v _ hv hp

/-- A step in which a core acts. -/
theorem step_of_turn {b : Action} {caller : Int} {i : Input} (hs : c.step b = some c')
    (ht : c.turn b = some (n, caller, i)) : c' = (c.without b).act n caller i := by
  cases b with
  | electionTimeout m =>
    obtain ⟨rfl, rfl, rfl⟩ := Option.some.inj ht
    exact (Option.some.inj hs).symm
  | heartbeatTimeout m =>
    obtain ⟨rfl, rfl, rfl⟩ := Option.some.inj ht
    exact (Option.some.inj hs).symm
  | client m q =>
    obtain ⟨rfl, rfl, rfl⟩ := Option.some.inj ht
    exact (Option.some.inj hs).symm
  | deliver k =>
    unfold turn at ht
    unfold step at hs
    cases hk : c.net[k]? with
    | none => simp [hk] at ht
    | some e =>
      simp only [hk] at ht hs
      split at ht
      · cases ht
      next he =>
        rw [if_neg he] at hs
        obtain ⟨rfl, rfl, rfl⟩ := Option.some.inj ht
        exact (Option.some.inj hs).symm
  | _ => cases ht

/-- A step of the surroundings. -/
theorem mirrors_surroundings (h : Upholds ok I D) (hm : Mirrors I D c a) {b : Action}
    (ht : c.turn b = none) (hs : c.step b = some c') : Mirrors I D c' a := by
  cases b with
  | deliver k =>
    unfold turn at ht
    unfold step at hs
    cases hk : c.net[k]? with
    | none => simp [hk] at hs
    | some e =>
      simp only [hk] at ht hs
      split at ht
      next he =>
        rw [if_pos he] at hs
        cases hs
      · cases ht
  | clerk k b =>
    unfold step at hs
    cases hk : c.net[k]? with
    | none => simp [hk] at hs
    | some e =>
      simp only [hk] at hs
      cases hb : clerkAnswer b e.msg with
      | none => simp [hb] at hs
      | some m =>
        simp only [hb] at hs
        obtain rfl := Option.some.inj hs
        exact mirrors_clerk h hm hk hb
  | lose k =>
    obtain rfl := Option.some.inj hs
    exact mirrors_take h hm k
  | rpcFailure caller callee kind =>
    obtain rfl := Option.some.inj hs
    refine hm.of_channel rfl rfl ?_ h.weak
    intro v hc hv
    show I (v.withChannel (localTo a (c.net ++ [_])))
    rw [localTo_append, localTo_cons_of_neg (by cases kind <;> exact fun he => nomatch he.2),
      ← hc]
    exact h.perm v _ hv (List.append_nil _ ▸ List.Perm.refl _)
  | _ => cases ht

theorem mirrors_step (h : Upholds ok I D) {b : Action}
    (hm : ∀ a, Mirrors I D c a) (hg : c.Obeys (fun c n i => ok (c.raft n) i) b)
    (hs : c.step b = some c') : ∀ a, Mirrors I D c' a := by
  intro a
  cases ht : c.turn b with
  | none => exact mirrors_surroundings h (hm a) ht hs
  | some x =>
    obtain ⟨n, caller, i⟩ := x
    rw [step_of_turn hs ht]
    have hwithout := mirrors_without h (hm a) b
    have hlive : (c.without b).Live n ↔ c.Live n := by cases b <;> exact Iff.rfl
    have hraft : (c.without b).raft n = c.raft n := by cases b <;> rfl
    have hhanded : (c.without b).handedAt n = c.handedAt n := by cases b <;> rfl
    by_cases hl : c.Live n
    · by_cases ha : a = n
      · subst ha
        obtain ⟨v, hr, hd, hc, hv⟩ := mirrors_faces h (hm a) ht hl
        apply mirrors_act h (hlive.mpr hl) (hr.trans hraft.symm) (hd.trans hhanded.symm) hc hv
        rw [hraft]
        exact hg _ (Option.mem_def.mpr ht) hl
      · exact mirrors_act_of_ne hwithout ha
    · rw [act_dead fun hd => hl (hlive.mp hd)]
      exact hwithout

end Mirrors

end Cluster

/-- An invariant of a process holds of every node of a cluster. -/
theorem Upholds.cluster {ok : Raft → Input → Prop} {I D : View → Prop} (h : Upholds ok I D)
    {ids : List Int} {c : Cluster} (h0 : ∀ n, I (View.init n ids none))
    (hr : Cluster.Reaches (fun c n i => ok (c.raft n) i) ids c) :
    ∀ n, Cluster.Mirrors I D c n := by
  obtain ⟨as, hr⟩ := hr
  refine hr.invariant (I := fun c => ∀ n, Cluster.Mirrors I D c n)
    (fun s e t hi hg hs => Cluster.mirrors_step h hi hg hs) ?_
  exact fun n => ⟨View.init n ids none, rfl, rfl, fun _ => ⟨rfl, h0 n⟩, h.weak _ (h0 n)⟩

/-! ## Clusters -/

namespace Cluster

/-- No handler of a node of the cluster fails on an index. -/
def LooksWithin (c : Cluster) : Prop :=
  ∀ a n caller i, c.turn a = some (n, caller, i) → c.Live n → (c.raft n).LooksWithin i

/-- The leaders of the cluster describe their logs truthfully. -/
structure Truthful (c : Cluster) : Prop where
  peers : ∀ n, c.Live n → (c.raft n).PeersWithin
  requests : ∀ a n caller i, c.turn a = some (n, caller, i) → c.Live n →
    (c.raft n).TellsTruth i

/-- Lookups stay within the vectors of all nodes while every step keeps them in reach. -/
theorem lookups_within (ids : List Int) (c : Cluster)
    (hr : Reaches (fun c n i => KeepsReach (c.raft n) i) ids c) (a : Action)
    (hg : c.Obeys (fun c n i => KeepsReach (c.raft n) i) a) (n caller : Int) (i : Input)
    (ht : c.turn a = some (n, caller, i)) (hl : c.Live n) : (c.raft n).LooksWithin i := by
  have hm := upholds_inReach.cluster (fun m => restart_inReach m ids none) hr n
  obtain ⟨v, hraft, _, hc, hv⟩ := mirrors_faces upholds_inReach hm ht hl
  have hin : InReach (c.raft n) (i.taken ++ localTo n (c.without a).net) := by
    rw [← hraft, ← hc]
    exact hv
  have hk : KeepsReach (c.raft n) i := hg _ (Option.mem_def.mpr ht) hl
  exact ⟨InReach.returns hk hin, hin.whole.iteratorsWithin i⟩

/-- Every leader of the cluster tells the truth while every step keeps to it. -/
theorem leaders_truthful (ids : List Int) (c : Cluster)
    (hr : Reaches (fun c n i => KeepsTruth (c.raft n) i) ids c) : c.Truthful := by
  have h0 (m : Int) : Telling (restart m ids none) [] ∧ FloorFile none :=
    ⟨restart_telling m ids nofun, nofun⟩
  have hm := upholds_telling.cluster h0 hr
  constructor
  · intro n hl
    obtain ⟨v, hraft, _, hv, _⟩ := hm n
    rw [← hraft]
    exact (hv hl.2).2.1.peers
  · intro a n caller i ht hl
    obtain ⟨v, hraft, _, _, hv⟩ := mirrors_faces upholds_telling (hm n) ht hl
    rw [← hraft]
    exact hv.1.tellsTruth i

/-- Node 1 holds the first of two writes twice and has told so.  The leader then sends
from behind the end of its own log. -/
theorem leader_sends_beyond :
    ¬ ∀ (ids : List Int) (c : Cluster), Membership ids → Reaches anyStep ids c →
      c.Truthful := by
  intro h
  obtain ⟨c, hr, hc⟩ := Reaches.of_exec anyStep [0, 1, 2]
    (pipelinedWrites ++ [.deliver 6])
    (fun c => decide (c.ids = [0, 1, 2] ∧ (c.servers 0).alive = true ∧
      (c.raft 0).role = .leader ∧
      ∃ p ∈ (c.raft 0).peers, p.id ≠ (c.raft 0).id ∧
        (c.raft 0).lastLogIndex + 1 < p.nextIndex)) (by decide +kernel)
  obtain ⟨hids, halive, hrole, p, hp, hne, hlt⟩ := of_decide_eq_true hc
  have hlive : c.Live 0 := ⟨by simp [hids], halive⟩
  have hle := ((h [0, 1, 2] c ⟨by decide, by decide⟩ hr).peers 0 hlive hrole p hp hne).2
  omega

/-- The heartbeat that follows names an entry of node 1 with the term 0.  The refusal
looks the entry up once more when it is cut off. -/
theorem refusal_throws :
    ¬ ∀ (ids : List Int) (c : Cluster), Membership ids → Reaches anyStep ids c →
      c.LooksWithin := by
  intro h
  obtain ⟨c, hr, hc⟩ := Reaches.of_exec anyStep [0, 1, 2]
    (pipelinedWrites ++ [.deliver 6, .heartbeatTimeout 0])
    (fun c => decide (c.ids = [0, 1, 2] ∧ (c.servers 1).alive = true ∧
      ∃ x ∈ c.turn (.deliver 7), x.1 = 1 ∧ ((c.raft 1).react x.2.2).thrown = true))
    (by decide +kernel)
  obtain ⟨hids, halive, ⟨n, caller, i⟩, ht, hn, hthrown⟩ := of_decide_eq_true hc
  obtain rfl : n = 1 := hn
  have hlive : c.Live 1 := ⟨by simp [hids], halive⟩
  have hreturns := (h [0, 1, 2] c ⟨by decide, by decide⟩ hr (.deliver 7) 1 caller i ht hlive).1
  rw [hthrown] at hreturns
  cases hreturns

end Cluster

end WWRaftKV
