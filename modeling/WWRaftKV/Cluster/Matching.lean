/-
Match indices: what a leader counts is what its peer has.

The match index of a peer comes from three places: its answers to requests for entries, the
election, which sets it to 0, and its answers about snapshots.  The last ones say nothing
about an index, so the leader puts the end of its own snapshot there.
-/
import WWRaftKV.Cluster.Commitment

namespace WWRaftKV

open Consensus TermLog

namespace Cluster

/-! ## Conditions on steps -/

/-- A peer that answers about a snapshot has what the snapshot of the leader covers: its own
snapshot reaches as far, or it has the last entry. -/
def PeerHasPoint (c : Cluster) (n : Int) : Input → Prop
  | .message (.installSnapshotResponse m) => (c.raft n).role = .leader →
    m.term = (c.raft n).term →
      (c.raft n).lastIncludedIndex ≤ (c.raft m.fromId).lastIncludedIndex ∨
        ∃ e ∈ (c.raft m.fromId).getLogAt (c.raft n).lastIncludedIndex,
          e.term = (c.raft n).lastIncludedTerm
  | _ => True

/-- The steps that keep the match indices. -/
structure KeepsMatches (c : Cluster) (n : Int) (i : Input) : Prop where
  commits : KeepsCommits c n i
  point : PeerHasPoint c n i

section Decide

variable (c : Cluster) (n : Int) (i : Input)

instance : Decidable (PeerHasPoint c n i) := by
  induction i using Input.casesOn with
  | message m =>
    induction m using RaftMessage.casesOn <;> unfold PeerHasPoint <;> infer_instance
  | _ => exact .isTrue trivial

instance : Decidable (KeepsMatches c n i) :=
  decidable_of_iff (KeepsCommits c n i ∧ PeerHasPoint c n i)
    ⟨fun h => ⟨h.1, h.2⟩, fun h => ⟨h.commits, h.point⟩⟩

end Decide

/-! ## The property -/

/-- A node agrees with the log of `r` at index `j`: what both have there is the same, and the
node, while it runs, has it unless a snapshot covers it. -/
structure AgreesAt (r : Raft) (s : Server) (j : Int) : Prop where
  same : ∀ x y, r.getLogAt j = some x → s.raft.getLogAt j = some y → x.core = y.core
  held : s.alive = true → ¬ r.Compacted j → ¬ s.raft.Compacted j →
    ∃ x y, r.getLogAt j = some x ∧ s.raft.getLogAt j = some y

/-- Up to the match index that a leader stores for a peer, the peer agrees with it, as long
as no node has a later term. -/
def MatchSoundness (c : Cluster) : Prop :=
  ∀ n ∈ c.ids, (c.servers n).alive = true → (c.raft n).role = .leader →
    (∀ a ∈ c.ids, (c.raft a).term ≤ (c.raft n).term) →
      ∀ p ∈ (c.raft n).peers, p.id ≠ n → ∀ j, 1 ≤ j → j ≤ p.matchIndex →
        AgreesAt (c.raft n) (c.servers p.id) j

/-! ## The invariant -/

/-- The log of `p` begins with the first `k` entries of the log of `n`. -/
def Agreed (w : LogWorld) (n p k : Int) : Prop :=
  k ≤ (w.log n).length ∧ (w.log n).take k.toNat <+: w.log p

structure MatchInv (c : Cluster) (w : LogWorld) : Prop where
  logs : LogInv c w
  commits : CommitInv c w
  agreed : ∀ n ∈ c.ids, (c.raft n).role = .leader → ∀ p ∈ (c.raft n).peers, p.id ≠ n →
    Agreed w n p.id p.matchIndex

theorem matchInv_init {ids : List Int} (h : Membership ids) :
    MatchInv (init ids) World.start where
  logs := logInv_init h
  commits := commitInv_init ids
  agreed := fun _ _ hr => nomatch hr

section Agreed

variable {c : Cluster} {w w' : LogWorld} {n p k : Int}

theorem Agreed.grows (h : Agreed w n p k) (hg : Grows w w') : Agreed w' n p k := by
  obtain ⟨hk, hp⟩ := h
  obtain ⟨s, hs⟩ := hg.log n
  constructor
  · rw [← hs, List.length_append]
    omega
  · rw [← hs, List.take_append_of_le_length (by omega)]
    exact hp.trans (hg.log p)

/-- What a peer has confirmed in the leader's own term. -/
theorem LogInv.agreed_of_ack (h : LogInv c w) (hn : n ∈ c.ids) (hr : (c.raft n).role = .leader)
    (hk : k ≤ (w.ack p (c.raft n).term : Int)) : Agreed w n p k := by
  have hlead := h.leads n hn hr
  rw [← h.term n hn] at hlead hk
  have hack := h.inv.ack_le p (w.term n)
  have hlog := h.inv.leader_log n hlead
  constructor
  · rw [hlog]
    omega
  · rw [hlog]
    refine List.IsPrefix.trans ?_ (h.inv.acked p (w.term n))
    apply List.take_prefix_take_left
    omega

/-- Two nodes agree up to the shorter one of their snapshots. -/
theorem CommitInv.agreed_of_included (hc : CommitInv c w) (h : LogInv c w) (hn : n ∈ c.ids)
    (hp : p ∈ c.ids) (hle : (c.raft n).lastIncludedIndex ≤ (c.raft p).lastIncludedIndex) :
    Agreed w n p (c.raft n).lastIncludedIndex := by
  obtain ⟨h0, hlen, hsafe⟩ := (hc.marks n hn).included
  obtain ⟨_, hlen', hsafe'⟩ := (hc.marks p hp).included
  refine ⟨hlen, ?_⟩
  have hshort : ((w.log n).take (c.raft n).lastIncludedIndex.toNat).length ≤
      ((w.log p).take (c.raft p).lastIncludedIndex.toNat).length := by
    rw [List.length_take, List.length_take]
    omega
  have hpre : (w.log n).take (c.raft n).lastIncludedIndex.toNat <+:
      (w.log p).take (c.raft p).lastIncludedIndex.toNat := by
    rcases h.inv.safe_total hsafe hsafe' with hpre | hpre
    · exact hpre
    · rw [hpre.eq_of_length_le hshort]
  exact hpre.trans (List.take_prefix _ _)

/-- Two nodes agree up to an entry of one term that both have. -/
theorem LogInv.agreed_of_entry (h : LogInv c w) (hl : c.Live n) (hp : p ∈ c.ids)
    {e : RaftLogEntry} (he : (c.raft p).getLogAt (c.raft n).lastIncludedIndex = some e)
    (ht : e.term = (c.raft n).lastIncludedTerm) :
    Agreed w n p (c.raft n).lastIncludedIndex := by
  obtain ⟨h1, hentry⟩ := (h.part p hp).getLogAt he
  have hpos : 0 < (c.raft n).lastIncludedTerm := by
    rw [← ht]
    exact (h.inv.proper_log p).pos e.core (List.mem_of_getElem? hentry)
  obtain ⟨_, f, hf, hft⟩ := (h.holds n hl).included.resolve_left (Nat.ne_of_gt hpos)
  have htake := (h.inv.proper_log n).traced.take_eq (h.inv.proper_log p).traced hf hentry
    (hft.trans ht.symm)
  have hlen : ((c.raft n).lastIncludedIndex - 1).toNat < (w.log n).length :=
    (List.getElem?_eq_some_iff.mp hf).1
  have hidx : ((c.raft n).lastIncludedIndex - 1).toNat + 1 =
      (c.raft n).lastIncludedIndex.toNat := by omega
  rw [hidx] at htake
  refine ⟨by omega, ?_⟩
  rw [htake]
  exact List.take_prefix _ _

end Agreed

/-! ## One step of a core -/

section Act

open Raft

variable {c : Cluster} {w : LogWorld} {n caller : Int} {i : Input}

/-- The peers of the log after the step. -/
def agreedAfter (c : Cluster) (w : LogWorld) (n : Int) (i : Input) (ρ : RaftRole)
    (ps : List RaftPeer) : Prop :=
  ρ = .leader → ∀ p ∈ ps, p.id ≠ n →
    p.matchIndex ≤ ((c.raft n).logAfter (w.log n) i).length ∧
      ((c.raft n).logAfter (w.log n) i).take p.matchIndex.toNat <+: w.log p.id

theorem Agreed.after {p k : Int} (h : Agreed w n p k) (i : Input) :
    k ≤ ((c.raft n).logAfter (w.log n) i).length ∧
      ((c.raft n).logAfter (w.log n) i).take k.toNat <+: w.log p := by
  obtain ⟨hk, hp⟩ := h
  unfold logAfter
  constructor
  · rw [List.length_append]
    omega
  · rw [List.take_append_of_le_length (by omega)]
    exact hp

theorem agreedAfter_update {ps : List RaftPeer} {id : Int} {f : RaftPeer → RaftPeer}
    (h : agreedAfter c w n i .leader ps) (hid : ∀ p, (f p).id = p.id)
    (hf : ∀ p ∈ ps, p.id = id → p.id ≠ n →
      (f p).matchIndex = p.matchIndex ∨ Agreed w n p.id (f p).matchIndex) :
    agreedAfter c w n i .leader (updatePeer id f ps) := by
  intro _ p hp hpn
  rcases mem_updatePeer hp with hp | ⟨q, hq, hqid, rfl⟩
  · exact h rfl p hp hpn
  · rw [hid] at hpn ⊢
    rcases hf q hq hqid hpn with hsame | hnew
    · rw [hsame]
      exact h rfl q hq hpn
    · exact hnew.after i

/-- A new leader starts from match index 0. -/
theorem agreedAfter_reset (hid : (c.raft n).id = n) (ps : List RaftPeer) :
    agreedAfter c w n i .leader (ps.map (c.raft n).resetPeer) := by
  intro _ p hp hpn
  obtain ⟨q, _, rfl⟩ := List.mem_map.mp hp
  by_cases hqn : q.id = (c.raft n).id
  · rw [resetPeer, if_pos hqn] at hpn
    exact absurd (hqn.trans hid) hpn
  · rw [resetPeer, if_neg hqn]
    exact ⟨Int.natCast_nonneg _, List.nil_prefix⟩

theorem MatchInv.fair (h : MatchInv c w) (hl : c.Live n)
    (hsent : ∀ m, i = .message m → Sent w { src := caller, dst := n, msg := m })
    (hv : ∀ m, i = .message m → Vouched c.ids w { src := caller, dst := n, msg := m })
    (hk : KeepsMatches c n i) :
    Fair (watch c w n i (fun _ => True) (agreedAfter c w n i)) := by
  have hlogs := h.logs.fair hl hsent hk.commits.mismatch hk.commits.snapshot
  have hstart : agreedAfter c w n i (c.raft n).role (c.raft n).peers :=
    fun hr p hp hpn => (h.agreed n hl.1 hr p hp hpn).after i
  have hmem : ∀ p ∈ (c.raft n).peers, p.id ∈ c.ids := by
    intro p hp
    rw [← h.logs.votes.peers n hl.1]
    exact List.mem_map_of_mem hp
  constructor
  case start => exact ⟨rfl, trivial, trivial, trivial, hstart⟩
  case follow => exact nofun
  case stand => exact nofun
  case lead =>
    intro _
    exact agreedAfter_reset (h.logs.votes.ident n hl.1) _
  case commit => exact fun _ _ _ _ => trivial
  case mismatch => exact hlogs.mismatch
  case answer =>
    rintro m rfl hr hle hs r1 rfl
    refine ⟨?_, fun _ => trivial⟩
    have hr' : (c.raft n).role = .leader := hr
    have hterm : m.term = (c.raft n).term := Nat.le_antisymm hle (hk.commits.count hr hs)
    obtain ⟨_, hfrom, hack⟩ := hv _ rfl hs
    refine agreedAfter_update (hr' ▸ hstart) (fun _ => rfl) ?_
    intro p _ hpid _
    right
    apply h.logs.agreed_of_ack hl.1 hr'
    show m.lastLogIndex ≤ _
    rw [hpid, hfrom, ← hterm]
    exact hack
  case retry =>
    rintro m rfl hr k
    have hr' : (c.raft n).role = .leader := hr
    exact agreedAfter_update (hr' ▸ hstart) (fun _ => rfl) fun p _ _ _ => .inl rfl
  case installed =>
    rintro m rfl hr hterm
    have hr' : (c.raft n).role = .leader := hr
    refine agreedAfter_update (hr' ▸ hstart) (fun _ => rfl) ?_
    intro p hp hpid _
    right
    show Agreed w n p.id (c.raft n).lastIncludedIndex
    rcases hk.point hr' hterm with hle | ⟨e, he, het⟩
    · rw [← hpid] at hle
      exact h.commits.agreed_of_included h.logs hl.1 (hmem p hp) hle
    · rw [← hpid] at he
      exact h.logs.agreed_of_entry hl (hmem p hp) he het
  case applied => exact fun _ _ => trivial
  case generated => exact hlogs.generated
  case received => exact hlogs.received

theorem MatchInv.act (h : MatchInv c w) (hl : c.Live n) (hin : InHand c w.vote n caller i)
    (hsent : ∀ m, i = .message m → Sent w { src := caller, dst := n, msg := m })
    (hv : ∀ m, i = .message m → Vouched c.ids w { src := caller, dst := n, msg := m })
    (hk : KeepsMatches c n i) : ∃ w', MatchInv (c.act n caller i) w' := by
  obtain ⟨w', hlogs, hcommits, hcar⟩ := h.commits.act h.logs hl hin hsent hv hk.commits
  have hends := react_log (h.fair hl hsent hv hk) (h.logs.holds n hl) rfl
  refine ⟨w', hlogs, hcommits, ?_⟩
  refine (acts_act caller i hl).forall_raft (P := fun a r => r.role = .leader →
    ∀ p ∈ r.peers, p.id ≠ a → Agreed w' a p.id p.matchIndex) ?_ ?_
  · intro hr p hp hpn
    obtain ⟨hk, hpre⟩ := hends.tracks.peers hr p hp hpn
    unfold Agreed
    rw [hcar.log_self]
    exact ⟨hk, hpre.trans (hcar.grows.log p.id)⟩
  · intro a ha _ hr p hp hpn
    exact (h.agreed a ha hr p hp hpn).grows hcar.grows

end Act

/-! ## Runs -/

section Runs

variable {c : Cluster} {w : LogWorld} {n caller : Int} {i : Input}

theorem MatchInv.net {es : List Envelope} (h : MatchInv c w)
    (hlogs : LogInv { c with net := es } w) (hcommits : CommitInv { c with net := es } w) :
    MatchInv { c with net := es } w := ⟨hlogs, hcommits, h.agreed⟩

theorem MatchInv.step_act (h : MatchInv c w) (hin : InHand c w.vote n caller i)
    (hsent : ∀ m, i = .message m → Sent w { src := caller, dst := n, msg := m })
    (hv : ∀ m, i = .message m → Vouched c.ids w { src := caller, dst := n, msg := m })
    (hk : KeepsMatches c n i) : ∃ w', MatchInv (c.act n caller i) w' := by
  by_cases hl : c.Live n
  · exact h.act hl hin hsent hv hk
  · rw [act_dead hl]
    exact ⟨w, h⟩

theorem keepsMatches_timer (hi : ∀ m, i ≠ .message m) : KeepsMatches c n i := by
  refine ⟨keepsCommits_timer hi, ?_⟩
  cases i with
  | message m => exact absurd rfl (hi m)
  | _ => trivial

theorem MatchInv.step (h : MatchInv c w) {a : Action} {c' : Cluster}
    (hg : c.Obeys KeepsMatches a) (hs : c.step a = some c') : ∃ w', MatchInv c' w' := by
  cases moves_of_step hs with
  | timer hi =>
    exact h.step_act (inHand_timer hi) (fun m hm => absurd hm (hi m))
      (fun m hm => absurd hm (hi m)) (keepsMatches_timer hi)
  | client =>
    refine h.step_act trivial (fun m hm => ?_) (fun m hm => ?_)
      ⟨⟨trivial, trivial, trivial, trivial, trivial⟩, trivial⟩ <;>
    · obtain rfl := Input.message.inj hm
      trivial
  | @deliver k e hk he =>
    have htake : MatchInv (c.take k) w := h.net (h.logs.take k) (h.commits.take k)
    by_cases hl : c.Live e.dst
    · obtain ⟨hok, hpoint⟩ := obeys_deliver hg hk he hl
      refine htake.step_act (h.logs.votes.inHand hk hl.1) (fun m hm => ?_) (fun m hm => ?_)
        ⟨⟨hok.vote, hok.share, hok.mismatch, hok.snapshot, hok.count⟩, hpoint⟩
      · obtain rfl := Input.message.inj hm
        exact h.logs.sent e (List.mem_of_getElem? hk)
      · obtain rfl := Input.message.inj hm
        exact h.commits.vouched e (List.mem_of_getElem? hk)
    · rw [act_dead (take_live.not.mpr hl)]
      exact ⟨w, htake⟩
  | @clerk k b e m hk hm =>
    have hmem := List.mem_of_getElem? hk
    have hlogs := (h.logs.take k).post (sent_clerk (h.logs.sent _ hmem) hm)
      ((h.logs.votes.take k).clerk hm)
    exact ⟨w, h.net hlogs ((h.commits.take k).post (vouched_clerk (h.commits.vouched _ hmem) hm))⟩
  | @lose k => exact ⟨w, h.net (h.logs.take k) (h.commits.take k)⟩
  | rpcFailure =>
    exact ⟨w, h.net (h.logs.post (sent_default _ _ _) (h.logs.votes.rpcFailure _ _ _))
      (h.commits.post (vouched_default _ _ _ _ _))⟩

theorem Reaches.matchInv {ids : List Int} (hm : Membership ids)
    (hr : Reaches KeepsMatches ids c) : ∃ w, MatchInv c w := by
  obtain ⟨as, hr⟩ := hr
  refine hr.invariant (I := fun c => ∃ w, MatchInv c w) ?_ ⟨_, matchInv_init hm⟩
  rintro s a t ⟨w, hw⟩ hok hs
  exact hw.step hok hs

end Runs

/-! ## Soundness -/

/-- Below an index up to which the logs agree, the nodes agree. -/
theorem LogInv.agreesAt {c : Cluster} {w : LogWorld} {n p k j : Int} (h : LogInv c w)
    (hcov : CoveredInv c) (hl : c.Live n) (hp : p ∈ c.ids) (ha : Agreed w n p k) (h1 : 1 ≤ j)
    (hj : j ≤ k) : AgreesAt (c.raft n) (c.servers p) j := by
  obtain ⟨hk, hpre⟩ := ha
  have hshort : (j - 1).toNat < ((w.log n).take k.toNat).length := by
    rw [List.length_take]
    omega
  have hsame : (w.log p)[(j - 1).toNat]? = (w.log n)[(j - 1).toNat]? := by
    rw [getElem?_prefix_eq hpre hshort, List.getElem?_take, if_pos (by omega)]
  constructor
  · intro x y hx hy
    obtain ⟨_, hlx⟩ := (h.part n hl.1).getLogAt hx
    obtain ⟨_, hly⟩ := (h.part p hp).getLogAt hy
    rw [hsame, hlx] at hly
    exact Option.some.inj hly
  · intro halive hcn hcp
    have hlen := hpre.length_le
    obtain ⟨x, hx, _⟩ := (h.holds n hl).getLogAt ((hcov.nodes n hl.1).baseIndex_le hcn) (by omega)
    obtain ⟨y, hy, _⟩ := (h.holds p ⟨hp, halive⟩).getLogAt
      ((hcov.nodes p hp).baseIndex_le hcp) (by omega)
    exact ⟨x, y, hx, hy⟩

/-- Match indices are sound, in every run whose steps keep them. -/
theorem matchSoundness_of_keepsMatches (ids : List Int) (c : Cluster) (hm : Membership ids)
    (hr : Reaches KeepsMatches ids c) : c.MatchSoundness := by
  obtain ⟨w, h⟩ := hr.matchInv hm
  have hcov : CoveredInv c := hr.coveredInv fun _ _ _ hk => hk.commits.snapshot
  intro n hn halive hrole _ p hp hpn j h1 hj
  have hmem : p.id ∈ c.ids := by
    rw [← h.logs.votes.peers n hn]
    exact List.mem_map_of_mem hp
  exact h.logs.agreesAt hcov ⟨hn, halive⟩ hmem (h.agreed n hn hrole p hp hpn) h1 hj

theorem matchSoundness_three :
    ∃ c, Reaches KeepsMatches [0, 1, 2] c ∧
      (∃ p ∈ (c.raft 0).peers, p.id = 1 ∧ p.matchIndex = 1) ∧ c.MatchSoundness := by
  obtain ⟨c, hr, hc⟩ := Reaches.of_exec KeepsMatches [0, 1, 2] writeCommitted
    (fun c => decide (∃ p ∈ (c.raft 0).peers, p.id = 1 ∧ p.matchIndex = 1)) (by decide +kernel)
  exact ⟨c, hr, of_decide_eq_true hc,
    matchSoundness_of_keepsMatches [0, 1, 2] c ⟨by decide, by decide⟩ hr⟩

/-- Node 1 holds the first of two writes twice and says that it has three entries. -/
theorem match_overstated :
    ¬ ∀ (ids : List Int) (c : Cluster), Membership ids → Reaches anyStep ids c →
      c.MatchSoundness := by
  intro h
  obtain ⟨c, hr, hc⟩ := Reaches.of_exec anyStep [0, 1, 2]
    (pipelinedWrites ++ [.deliver 6])
    (fun c => decide (c.ids = [0, 1, 2] ∧ (c.servers 0).alive = true ∧
      (c.raft 0).role = .leader ∧ (∀ a ∈ c.ids, (c.raft a).term ≤ (c.raft 0).term) ∧
      ∃ p ∈ (c.raft 0).peers, p.id = 1 ∧ 2 ≤ p.matchIndex ∧
        ∃ x ∈ (c.raft 0).getLogAt 2, ∃ y ∈ (c.raft 1).getLogAt 2, x.core ≠ y.core))
    (by decide +kernel)
  obtain ⟨hids, halive, hrole, hterm, p, hp, hpid, hmatch, x, hx, y, hy, hne⟩ :=
    of_decide_eq_true hc
  have hagrees := h [0, 1, 2] c ⟨by decide, by decide⟩ hr 0 (by simp [hids]) halive hrole hterm p
    hp (by rw [hpid]; decide) 2 (by decide) hmatch
  rw [hpid] at hagrees
  exact hne (hagrees.same x y hx hy)

end Cluster

end WWRaftKV
