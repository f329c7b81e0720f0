/-
Leader Append-Only.

As long as a node leads a term it takes no entry out of its log and overwrites none,
except that a snapshot may replace the front.  The handler of `AppendEntries` does not
ask for the role, so this rests on Election Safety: nobody but the leader of a term sends
entries in it, and a leader sends none to itself.
-/
import WWRaftKV.Cluster.Election
import WWRaftKV.Core.Leading

namespace WWRaftKV

namespace Cluster

/-- Node `n` has become the leader of the term it is in. -/
def Won (c : Cluster) (n : Int) : Prop :=
  ∃ s ∈ c.history, s.node = n ∧ s.BecomesLeader ∧ s.post.term = (c.raft n).term

instance (c : Cluster) (n : Int) : Decidable (c.Won n) := by
  unfold Won
  infer_instance

variable {c c' : Cluster} {n caller : Int} {i : Input}

theorem won_act_other (hl : c.Live n) {a : Int} (ha : a ≠ n) :
    (c.act n caller i).Won a ↔ c.Won a := by
  unfold Won
  rw [act_raft_other hl ha, act_history hl]
  constructor
  · rintro ⟨x, hx, hn, hb⟩
    rcases List.mem_append.mp hx with hx | hx
    · exact ⟨x, hx, hn, hb⟩
    · rw [List.mem_singleton.mp hx] at hn
      exact absurd hn.symm ha
  · rintro ⟨x, hx, hb⟩
    exact ⟨x, List.mem_append_left _ hx, hb⟩

/-! ## Who sends entries -/

/-- A node that leads has won its term, and the entries on their way come from the winner
of their term. -/
structure TitleInv (c : Cluster) : Prop where
  leads : ∀ n, (c.raft n).role = .leader → c.Won n
  sent : ∀ e ∈ c.net, ∀ q, e.msg = .appendEntriesRequest q →
    e.dst ≠ e.src ∧ ∃ s ∈ c.history, s.node = e.src ∧ s.BecomesLeader ∧ s.post.term = q.term
  ident : ∀ n, (c.raft n).id = n

theorem titleInv_init (ids : List Int) : TitleInv (init ids) where
  leads := fun _ hr => nomatch hr
  sent := nofun
  ident := fun _ => rfl

theorem TitleInv.act (h : TitleInv c) : TitleInv (c.act n caller i) := by
  by_cases hl : c.Live n
  · have hb := Raft.react_ballot (c.raft n) i
    -- the node that leads at the end of the step has won its term by then
    have hself : ((c.raft n).react i).raft.role = .leader → (c.act n caller i).Won n := by
      intro hr
      unfold Won
      rw [act_raft_self hl, act_history hl]
      by_cases hold : (c.raft n).role = .leader
      · obtain ⟨s, hs, hn, hbl, ht⟩ := h.leads n hold
        exact ⟨s, List.mem_append_left _ hs, hn, hbl, ht.trans (hb.of_leader hr).1.symm⟩
      · exact ⟨_, List.mem_append_right _ (List.mem_singleton.mpr rfl), rfl, ⟨hold, hr⟩, rfl⟩
    constructor
    case leads =>
      intro a hr
      rw [act_raft hl] at hr
      by_cases ha : a = n
      · subst ha
        rw [if_pos rfl] at hr
        exact hself hr
      · rw [if_neg ha] at hr
        exact (won_act_other hl ha).mpr (h.leads a hr)
    case sent =>
      intro e he q hq
      rw [act_net hl] at he
      rcases List.mem_append.mp he with he | he
      · obtain ⟨hne, s, hs, hrest⟩ := h.sent e he q hq
        rw [act_history hl]
        exact ⟨hne, s, List.mem_append_left _ hs, hrest⟩
      · obtain ⟨m, hm, hroute⟩ := List.mem_filterMap.mp he
        cases m with
        | appendEntriesRequest m =>
          obtain rfl := Option.some.inj hroute
          obtain rfl := RaftMessage.appendEntriesRequest.inj hq
          obtain ⟨hterm, hrole, hto⟩ := Raft.react_appends hm
          rw [h.ident n] at hto
          obtain ⟨s, hs, hn, hbl, ht⟩ := hself hrole
          rw [act_raft_self hl] at ht
          exact ⟨hto, s, hs, hn, hbl, ht.trans hterm.symm⟩
        | _ =>
          first
          | (obtain rfl := Option.some.inj hroute; cases hq)
          | cases hroute
    case ident =>
      intro a
      rw [act_raft hl]
      split
      next ha => rw [hb.id_eq, ha]; exact h.ident n
      next => exact h.ident a
  · rw [act_dead hl]
    exact h

/-- The bag loses messages and gains some that carry no entries. -/
theorem TitleInv.bag (h : TitleInv c) {net : List Envelope}
    (hnet : ∀ e ∈ net, e ∈ c.net ∨ ∀ q, e.msg ≠ .appendEntriesRequest q) :
    TitleInv { c with net := net } where
  leads := h.leads
  sent := by
    intro e he q hq
    rcases hnet e he with he | he
    · exact h.sent e he q hq
    · exact absurd hq (he q)
  ident := h.ident

theorem TitleInv.take (h : TitleInv c) (k : Nat) : TitleInv (c.take k) :=
  h.bag fun _ he => .inl (mem_of_mem_take he)

theorem TitleInv.post (h : TitleInv c) {e : Envelope}
    (he : ∀ q, e.msg ≠ .appendEntriesRequest q) : TitleInv (c.post [e]) := by
  apply h.bag
  intro x hx
  rcases List.mem_append.mp hx with hx | hx
  · exact .inl hx
  · rw [List.mem_singleton.mp hx]
    exact .inr he

theorem TitleInv.step (h : TitleInv c) {a : Action} (hs : c.step a = some c') :
    TitleInv c' := by
  cases moves_of_step hs with
  | timer hi => exact h.act
  | client => exact h.act
  | deliver hk he => exact (h.take _).act
  | @clerk k b e m hk hm =>
    refine (h.take _).post fun q hq => ?_
    obtain rfl : m = _ := hq
    cases hmsg : e.msg <;> rw [hmsg] at hm <;> cases hm
  | lose => exact h.take _
  | @rpcFailure _ _ kind => exact h.post fun q hq => by cases kind <;> cases hq

/-! ## What a leader keeps -/

/-- The log of node `n` under the leadership of term `t`: as long as `n` is in this term,
it leads, and it has what `r` has. -/
structure Reigns (r : Raft) (n : Int) (t : Nat) (c : Cluster) : Prop where
  term : t ≤ (c.raft n).term
  role : (c.raft n).term = t → (c.raft n).role = .leader
  log : (c.raft n).term = t → r.Retains (c.raft n)

/-- No entries reach a leader from its own term. -/
theorem TitleInv.noEntries (h : TitleInv c) (hes : c.ElectionSafety) {e : Envelope}
    (he : e ∈ c.net) (hr : (c.raft e.dst).role = .leader)
    (ht : ((c.raft e.dst).react (.message e.msg)).raft.term = (c.raft e.dst).term) :
    (c.raft e.dst).NoEntries (.message e.msg) := by
  intro m hm
  obtain hm := Input.message.inj hm
  obtain ⟨hne, s, hs, hsn, hsl, hst⟩ := h.sent e he m hm
  obtain ⟨x, hx, hxn, hxl, hxt⟩ := h.leads e.dst hr
  by_contra hlt
  have hle : (c.raft e.dst).term ≤ m.term := Nat.le_of_not_lt hlt
  have hballot := Raft.react_appendEntries_ballot (c.raft e.dst) m hle
  rw [hm] at ht
  have hterm : ((c.raft e.dst).observe m.fromId m.term).term = (c.raft e.dst).term :=
    (congrArg Ballot.term hballot).symm.trans ht
  have heq : m.term = (c.raft e.dst).term := by
    by_cases hgt : m.term > (c.raft e.dst).term
    · rw [Raft.observe_gt hgt] at hterm
      exact hterm
    · omega
  have hnode := hes s hs x hx hsl hxl (by rw [hst, hxt, heq])
  rw [hsn, hxn] at hnode
  exact hne hnode.symm

theorem Reigns.act {r : Raft} {a : Int} {t : Nat} (h : Reigns r a t c)
    (hn : n = a → (c.raft a).role = .leader →
      ((c.raft a).react i).raft.term = (c.raft a).term → (c.raft a).NoEntries i) :
    Reigns r a t (c.act n caller i) := by
  by_cases hl : c.Live n
  · by_cases ha : a = n
    · subst ha
      have hb := Raft.react_ballot (c.raft a) i
      have hle := hb.term_le
      have hterm := h.term
      constructor <;> rw [act_raft_self hl]
      · exact Nat.le_trans hterm hle
      · intro ht
        have hold : (c.raft a).term = t := by omega
        exact hb.leader_stays (h.role hold) (by omega)
      · intro ht
        have hold : (c.raft a).term = t := by omega
        exact (h.log hold).trans (Raft.react_retains (hn rfl (h.role hold) (by omega)))
    · constructor <;> rw [act_raft_other hl ha]
      · exact h.term
      · exact h.role
      · exact h.log
  · rw [act_dead hl]
    exact h

theorem Reigns.step {r : Raft} {a : Int} {t : Nat} (h : Reigns r a t c) (hi : TitleInv c)
    (hes : c.ElectionSafety) {x : Action} (hs : c.step x = some c') : Reigns r a t c' := by
  cases moves_of_step hs with
  | timer hi => exact h.act fun _ _ _ m hm => absurd hm (hi _)
  | client => exact h.act fun _ _ _ m hm => nomatch hm
  | @deliver k e hk he =>
    have htake : Reigns r a t (c.take k) := ⟨h.term, h.role, h.log⟩
    refine htake.act fun hd hr ht => ?_
    subst hd
    exact hi.noEntries hes (List.mem_of_getElem? hk) hr ht
  | clerk hk hm => exact ⟨h.term, h.role, h.log⟩
  | lose => exact ⟨h.term, h.role, h.log⟩
  | rpcFailure => exact ⟨h.term, h.role, h.log⟩

/-- Leader Append-Only: between two moments at which a node leads the same term, every
entry of its log has stayed at its index, or lies in front of the vector, in every run in
which no leader grants a vote of its own term. -/
theorem leaderAppendOnly (ids : List Int) (c c' : Cluster) (as : List Action)
    (hm : Membership ids) (hr : Reaches LeaderKeepsVote ids c)
    (hrun : Transition.Run step (Obeys LeaderKeepsVote) c as c') (n : Int)
    (hl : (c.raft n).role = .leader) (ht : (c'.raft n).term = (c.raft n).term) :
    (c'.raft n).role = .leader ∧ (c.raft n).baseIndex ≤ (c'.raft n).baseIndex ∧
      ∀ j e, (c.raft n).entryAt j = some e →
        (c'.raft n).entryAt j = some e ∨ j < (c'.raft n).baseIndex := by
  obtain ⟨bs, hbs⟩ := hr
  have hinv : TitleInv c := hbs.invariant (fun _ _ _ h _ hs => h.step hs) (titleInv_init ids)
  have hend : Reaches LeaderKeepsVote ids c' ∧ TitleInv c' ∧
      Reigns (c.raft n) n (c.raft n).term c' := by
    refine hrun.invariant (I := fun x => Reaches LeaderKeepsVote ids x ∧ TitleInv x ∧
      Reigns (c.raft n) n (c.raft n).term x) ?_
      ⟨⟨bs, hbs⟩, hinv, Nat.le_refl _, fun _ => hl, fun _ => Raft.Retains.refl _⟩
    rintro s a t ⟨⟨cs, hs⟩, hi, hreign⟩ hok hst
    have hrs : Reaches LeaderKeepsVote ids s := ⟨cs, hs⟩
    obtain ⟨v, hv⟩ := hrs.voteInv hm
    have hes := hv.electionSafety
    exact ⟨⟨_, hs.snoc hok hst⟩, hi.step hst, hreign.step hi hes hst⟩
  obtain ⟨-, -, hreign⟩ := hend
  exact ⟨hreign.role ht, hreign.log ht⟩

/-- Node 0 wins term 1 and takes a write. -/
def firstWrite : List Action :=
  [.electionTimeout 0, .deliver 1, .deliver 1,
    .client 0 { uuid := ['u'], opType := .put, key := ['a'], value := ['b'] }]

/-- It takes another one, and node 1 hears of both. -/
def secondWrite : List Action :=
  [.client 0 { uuid := ['u'], opType := .delete, key := ['a'], value := [] }, .deliver 5]

theorem leaderAppendOnly_secondWrite :
    ∃ c c', Reaches LeaderKeepsVote [0, 1, 2] c ∧
      Transition.Run step (Obeys LeaderKeepsVote) c secondWrite c' ∧
        (c.raft 0).logs.length = 1 ∧ (c'.raft 0).logs.length = 2 ∧
          ∀ j e, (c.raft 0).entryAt j = some e →
            (c'.raft 0).entryAt j = some e ∨ j < (c'.raft 0).baseIndex := by
  obtain ⟨c, hr, hp⟩ := Reaches.of_exec LeaderKeepsVote [0, 1, 2] firstWrite
    (fun c => decide ((c.raft 0).role = .leader ∧ (c.raft 0).logs.length = 1 ∧
      (Transition.exec step (Obeys LeaderKeepsVote) c secondWrite).map (fun c' =>
        decide ((c'.raft 0).term = (c.raft 0).term ∧ (c'.raft 0).logs.length = 2)) = some true))
    (by decide +kernel)
  obtain ⟨hl, hlen, hc'⟩ := of_decide_eq_true hp
  obtain ⟨c', hrun, hp'⟩ := Transition.Run.exists_of_exec hc'
  obtain ⟨ht, hlen'⟩ := of_decide_eq_true hp'
  have hkeep := leaderAppendOnly [0, 1, 2] c c' secondWrite ⟨by decide, by decide⟩ hr hrun 0
    hl ht
  exact ⟨c, c', hr, hrun, hlen, hlen', hkeep.2.2⟩

end Cluster

end WWRaftKV
