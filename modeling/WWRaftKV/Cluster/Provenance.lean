/-
Every entry goes back to an operation of a client.

In no run does a node store, send or hand to its clerk an entry that nobody has asked for:
its command is the text of an operation that has reached a leader of the entry's term.
The one exception is the padding that `_TruncateAfter` leaves behind when `_Last_log_index`
is ahead of the vector.
-/
import WWRaftKV.Core.Carry
import WWRaftKV.Cluster.Step

namespace WWRaftKV

namespace Cluster

/-- The entry is the padding of a vector, or it is what an operation became that reached
node `n` in a state `s` of the run. -/
def Origin (ok : Cluster → Action → Prop) (ids : List Int) (as : List Action)
    (x : RaftPersistLogEntry) : Prop :=
  x = (default : RaftLogEntry).core ∨
    ∃ bs n m cs s, as = bs ++ Action.client n m :: cs ∧
      Transition.Run step ok (init ids) bs s ∧ s.Live n ∧
        ((s.raft n).writeOf m).map RaftLogEntry.core = some x

variable {ok : Cluster → Action → Prop} {ids : List Int} {as : List Action}

theorem Origin.mono {x : RaftPersistLogEntry} (h : Origin ok ids as x) (bs : List Action) :
    Origin ok ids (as ++ bs) x := by
  rcases h with h | ⟨ds, n, m, cs, s, rfl, hrest⟩
  · exact .inl h
  · refine .inr ⟨ds, n, m, cs ++ bs, s, ?_, hrest⟩
    rw [List.append_assoc]
    rfl

/-- The entries of the nodes, of the messages in flight, and of all messages pushed so
far have an origin.  The operations of clients do not travel between nodes. -/
structure OriginInv (ok : Cluster → Action → Prop) (ids : List Int) (as : List Action)
    (c : Cluster) : Prop where
  logs : ∀ n, ∀ e ∈ (c.raft n).logs, Origin ok ids as e.core
  net : ∀ x ∈ c.net, ∀ e ∈ x.msg.carried, Origin ok ids as e.core
  pushed : ∀ s ∈ c.history, ∀ m ∈ s.pushed, ∀ e ∈ m.carried, Origin ok ids as e.core
  peers : ∀ x ∈ c.net, ∀ m, x.msg ≠ .kvOperationRequest m

theorem originInv_init (ok : Cluster → Action → Prop) (ids : List Int) :
    OriginInv ok ids [] (init ids) where
  logs := fun _ _ he => absurd he List.not_mem_nil
  net := fun _ hx => absurd hx List.not_mem_nil
  pushed := fun _ hs => absurd hs List.not_mem_nil
  peers := fun _ hx => absurd hx List.not_mem_nil

variable {c c' : Cluster} {n caller : Int} {i : Input}

theorem OriginInv.mono (h : OriginInv ok ids as c) (bs : List Action) :
    OriginInv ok ids (as ++ bs) c where
  logs := fun n e he => (h.logs n e he).mono bs
  net := fun x hx e he => (h.net x hx e he).mono bs
  pushed := fun s hs m hm e he => (h.pushed s hs m hm e he).mono bs
  peers := h.peers

/-- The way to the receiver keeps term and command. -/
theorem carried_route {m : RaftMessage} {x : Envelope} (h : route n caller m = some x) :
    x.msg.carried.map RaftLogEntry.core = m.carried.map RaftLogEntry.core := by
  cases m with
  | appendEntriesRequest m =>
    obtain rfl := Option.some.inj h
    show (m.entries.map fun e => e.core.entry).map RaftLogEntry.core = _
    rw [List.map_map]
    rfl
  | _ => first | (obtain rfl := Option.some.inj h; rfl) | cases h

theorem OriginInv.act (h : OriginInv ok ids as c)
    (hi : ∀ e ∈ (c.raft n).brought i, c.Live n → Origin ok ids as e.core) :
    OriginInv ok ids as (c.act n caller i) := by
  by_cases hl : c.Live n
  · obtain ⟨hlogs, hpushed⟩ := Raft.react_carries (W := fun e => Origin ok ids as e.core)
      (.inl rfl) (h.logs n) fun e he => hi e he hl
    constructor
    case logs =>
      intro a
      rw [act_raft hl]
      split
      · exact hlogs
      · exact h.logs a
    case net =>
      intro x hx e he
      rw [act_net hl] at hx
      rcases List.mem_append.mp hx with hx | hx
      · exact h.net x hx e he
      · obtain ⟨m, hm, hroute⟩ := List.mem_filterMap.mp hx
        have hcore : e.core ∈ m.carried.map RaftLogEntry.core := by
          rw [← carried_route hroute]
          exact List.mem_map_of_mem he
        obtain ⟨e', he', heq⟩ := List.mem_map.mp hcore
        rw [← heq]
        exact hpushed m hm e' he'
    case pushed =>
      intro s hs
      rw [act_history hl] at hs
      rcases List.mem_append.mp hs with hs | hs
      · exact h.pushed s hs
      · rw [List.mem_singleton.mp hs]
        exact hpushed
    case peers =>
      intro x hx
      rw [act_net hl] at hx
      rcases List.mem_append.mp hx with hx | hx
      · exact h.peers x hx
      · obtain ⟨m, hm, hroute⟩ := List.mem_filterMap.mp hx
        cases m <;> cases hroute <;> exact nofun
  · rw [act_dead hl]
    exact h

/-- A message that comes from no handler: it carries no entries and no operation. -/
def Plain (x : Envelope) : Prop :=
  x.msg.carried = [] ∧ ∀ m, x.msg ≠ .kvOperationRequest m

theorem OriginInv.bag (h : OriginInv ok ids as c) {net : List Envelope}
    (hnet : ∀ x ∈ net, x ∈ c.net ∨ Plain x) :
    OriginInv ok ids as { c with net := net } where
  logs := h.logs
  net := by
    intro x hx e he
    rcases hnet x hx with hx | hx
    · exact h.net x hx e he
    · rw [hx.1] at he
      cases he
  pushed := h.pushed
  peers := by
    intro x hx
    rcases hnet x hx with hx | hx
    · exact h.peers x hx
    · exact hx.2

theorem OriginInv.take (h : OriginInv ok ids as c) (k : Nat) :
    OriginInv ok ids as (c.take k) := h.bag fun _ hx => .inl (mem_of_mem_take hx)

theorem OriginInv.post (h : OriginInv ok ids as c) {x : Envelope} (hx : Plain x) :
    OriginInv ok ids as (c.post [x]) := by
  apply h.bag
  intro y hy
  rcases List.mem_append.mp hy with hy | hy
  · exact .inl hy
  · rw [List.mem_singleton.mp hy]
    exact .inr hx

/-- The invariant, with the run that has led to the state. -/
def Traceable (ok : Cluster → Action → Prop) (ids : List Int) (as : List Action) (c : Cluster) :
    Prop :=
  Transition.Run step ok (init ids) as c ∧ OriginInv ok ids as c

theorem Traceable.step (h : Traceable ok ids as c) {a : Action} (hok : ok c a)
    (hs : c.step a = some c') : Traceable ok ids (as ++ [a]) c' := by
  obtain ⟨hr, hi⟩ := h
  refine ⟨hr.snoc hok hs, ?_⟩
  have hlater := hi.mono [a]
  cases moves_of_step hs with
  | @timer _ _ i htimer =>
    apply hlater.act
    intro e he
    cases i with
    | message m => exact absurd rfl (htimer m)
    | _ => cases he
  | @client n m =>
    apply hlater.act
    intro e he hl
    -- the entry that the operation becomes is made here
    have hw : (c.raft n).writeOf m = some e := Option.mem_toList.mp he
    refine .inr ⟨as, n, m, [], c, rfl, hr, hl, ?_⟩
    rw [hw]
    rfl
  | @deliver k e hk he =>
    apply (hlater.take k).act
    intro x hx _
    have hnet := hlater.net e (List.mem_of_getElem? hk)
    cases hm : e.msg with
    | appendEntriesRequest m =>
      rw [hm] at hx hnet
      exact hnet x hx
    | kvOperationRequest m => exact absurd hm (hlater.peers e (List.mem_of_getElem? hk) m)
    | _ =>
      rw [hm] at hx
      cases hx
  | @clerk k b e m hk hm =>
    apply (hlater.take k).post
    cases hmsg : e.msg <;> rw [hmsg] at hm <;> cases hm <;> exact ⟨rfl, nofun⟩
  | lose => exact hlater.take _
  | @rpcFailure _ _ kind =>
    apply hlater.post
    cases kind <;> exact ⟨rfl, nofun⟩

/-- No creation: in every run, under whatever conditions, the entries of every log and the
entries of every message that a core has pushed, to a peer or to its clerk, go back to
operations of clients. -/
theorem entries_originate (ok : Cluster → Action → Prop) (ids : List Int) (as : List Action)
    (c : Cluster) (hr : Transition.Run step ok (init ids) as c) :
    (∀ n, ∀ e ∈ (c.raft n).logs, Origin ok ids as e.core) ∧
      ∀ s ∈ c.history, ∀ m ∈ s.pushed, ∀ e ∈ m.carried, Origin ok ids as e.core := by
  -- the run so far is part of the invariant, since an origin is a moment of it
  have htraced : Traceable ok ids as c :=
    hr.invariant_history (I := Traceable ok ids) (fun _ _ _ _ h hok hs => h.step hok hs)
      ⟨.nil _, originInv_init ok ids⟩
  exact ⟨htraced.2.logs, htraced.2.pushed⟩

/-- A write reaches the log of node 1 through node 0, the leader of term 1. -/
def writeSpreads : List Action :=
  [.electionTimeout 0, .deliver 1, .deliver 1,
    .client 0 { uuid := ['u'], opType := .put, key := ['a'], value := ['b'] }, .deliver 3]

theorem entries_originate_writeSpreads :
    ∃ c, Transition.Run step (Obeys anyStep) (init [0, 1, 2]) writeSpreads c ∧
      ∃ e ∈ (c.raft 1).logs, e.core ≠ (default : RaftLogEntry).core ∧
        Origin (Obeys anyStep) [0, 1, 2] writeSpreads e.core := by
  have hexec : (Transition.exec step (Obeys anyStep) (init [0, 1, 2]) writeSpreads).map
      (fun c => decide (∃ e ∈ (c.raft 1).logs, e.core ≠ (default : RaftLogEntry).core)) =
        some true := by decide +kernel
  obtain ⟨c, hr, hp⟩ := Transition.Run.exists_of_exec hexec
  obtain ⟨e, he, hne⟩ := of_decide_eq_true hp
  exact ⟨c, hr, e, he, hne, (entries_originate _ _ _ c hr).1 1 e he⟩

end Cluster

end WWRaftKV
