/-
What a leader does to its own log, and what it signs.

A leader takes nothing out of its vector but what a snapshot has replaced in front, unless
it handles entries that somebody else sends in a term it has not passed.
-/
import WWRaftKV.Core.Ballot
import WWRaftKV.Core.Emit
import WWRaftKV.Core.Places

namespace WWRaftKV

open Command RaftM

namespace Raft

/-- A leader that stays in its term stays its leader. -/
theorem BallotStep.leader_stays {r r' : Raft} {i : Input} {ms : List RaftMessage}
    (h : BallotStep r i r' ms) (hl : r.role = .leader) (ht : r'.term = r.term) :
    r'.role = .leader := by
  cases h with
  | keep hb => exact (congrArg Ballot.role hb).trans hl
  | stepDown hlt hb => omega
  | stand hr => exact absurd hl hr
  | @refuse m _ hr =>
    subst hr
    by_cases hgt : m.term > r.term
    · rw [observe_gt hgt] at ht
      exact absurd ht (Nat.ne_of_gt hgt)
    · rw [observe_le hgt]
      exact hl
  | @grant m hle hv hlog =>
    have hobs : (r.observe (-1) m.term).term = r.term := ht
    show (r.observe (-1) m.term).role = .leader
    by_cases hgt : m.term > r.term
    · rw [observe_gt hgt] at hobs
      exact absurd hobs (Nat.ne_of_gt hgt)
    · rw [observe_le hgt]
      exact hl
  | count hr => exact absurd (hl.symm.trans hr) nofun
  | elect hr => exact absurd (hl.symm.trans hr) nofun

variable {r : Raft} {i : Input}

/-! ## The vector -/

/-- The input brings no entries that the node could take. -/
def NoEntries (r : Raft) (i : Input) : Prop :=
  ∀ m, i = .message (.appendEntriesRequest m) → m.term < r.term

/-- Entries stay where they are, or have gone in front of the vector. -/
def Retains (r s : Raft) : Prop :=
  r.baseIndex ≤ s.baseIndex ∧
    ∀ j e, r.entryAt j = some e → s.entryAt j = some e ∨ j < s.baseIndex

theorem Retains.refl (r : Raft) : r.Retains r := ⟨Int.le_refl _, fun _ _ h => .inl h⟩

theorem Retains.trans {s t : Raft} (h : r.Retains s) (g : s.Retains t) : r.Retains t := by
  refine ⟨Int.le_trans h.1 g.1, fun j e he => ?_⟩
  rcases h.2 j e he with hs | hs
  · exact g.2 j e hs
  · exact .inr (Int.lt_of_lt_of_le hs g.1)

theorem Retains.of_eq {s t : Raft} (h : r.Retains s) (hl : t.logs = s.logs)
    (hb : t.baseIndex = s.baseIndex) : r.Retains t := by
  refine ⟨hb ▸ h.1, fun j e he => ?_⟩
  rw [entryAt_congr hl hb, hb]
  exact h.2 j e he

theorem Retains.of_marks {s t : Raft} (h : r.Retains s) (hk : t.marks = s.marks) :
    r.Retains t := h.of_eq (logs_of_marks hk) (baseIndex_of_marks hk)

theorem retains_appendLogs (s : Raft) (es : List RaftLogEntry) :
    s.Retains (s.appendLogs es) :=
  ⟨Int.le_refl _, fun _ _ h => .inl (entryAt_appendLogs.mpr (.inl h))⟩

theorem retains_truncateBefore (s : Raft) (q : Int) : s.Retains (s.truncateBefore q) := by
  unfold truncateBefore
  split
  · exact Retains.refl s
  next hq =>
    refine ⟨?_, fun j e he => ?_⟩
    · show s.baseIndex ≤ q
      omega
    · by_cases hj : j < q
      · exact .inr hj
      · obtain ⟨k, rfl, hk⟩ := entryAt_iff.mp he
        left
        apply entryAt_iff.mpr
        refine ⟨k - (q - s.baseIndex).toNat, ?_, ?_⟩
        · show _ = q + _
          omega
        · show (s.logs.drop (q - s.baseIndex).toNat)[_]? = _
          rw [List.getElem?_drop,
            show (q - s.baseIndex).toNat + (k - (q - s.baseIndex).toNat) = k by omega]
          exact hk

theorem Retains.change (hn : r.NoEntries i) {a b : Scope} (hc : Change r i a b)
    (h : r.Retains a.raft) : r.Retains b.raft := by
  cases hc with
  | turn _ r' hk => exact h.of_marks hk
  | vote _ r' hk => exact h.of_marks hk
  | sync _ m hne hi ha =>
    have hlt := hn m hi
    have hle := ha.1
    omega
  | follow => exact h.of_eq rfl rfl
  | reject _ m t hi hm hk ht hle =>
    have hlt := hn m hi
    omega
  | write m text => exact (retains_appendLogs r _).of_eq rfl rfl
  | confirm m => exact (Retains.refl r).of_eq rfl rfl
  | hand => exact h.of_eq rfl rfl
  | applied m => exact (Retains.refl r).of_eq rfl rfl
  | demand => exact h.of_eq rfl rfl
  | generated m => exact (retains_truncateBefore r _).of_eq rfl rfl
  | installed m => exact (retains_truncateBefore r _).of_eq rfl rfl
  | emit => exact h

/-- A request of an older term is refused, and nothing else happens. -/
theorem react_stale {m : RaftAppendEntriesRequestMessage} (h : m.term < r.term) :
    (r.react (.message (.appendEntriesRequest m))).raft = r := by
  rw [react_eq]
  show (endScope ((handleAppendEntriesRequest m).run _)).raft = r
  rw [handleAppendEntriesRequest, bind_run, fields_run]
  simp only
  rw [ite_run, if_pos h]
  rfl

theorem react_retains (hn : r.NoEntries i) : r.Retains (r.react i).raft := by
  obtain ⟨s, hs, -, hb, -, hlog⟩ := (react_breaks r i).reached
  have hgo : r.Retains s.raft := hs.invariant (I := fun s => r.Retains s.raft) (Retains.refl r)
    fun _ _ hc => Retains.change hn hc
  rcases hlog with hlog | ⟨m, rfl, -⟩
  · exact hgo.of_eq hlog.logs hb
  · rw [react_stale (hn m rfl)]
    exact Retains.refl r

/-! ## The requests -/

/-- The node is the leader of term `t`, and its id is `a`. -/
structure Leads (t : Nat) (a : Int) (x : Raft) : Prop where
  term : x.term = t
  id : x.id = a
  role : x.role = .leader

/-- A request for entries of term `t` that does not go to `a`. -/
def OwnRequest (t : Nat) (a : Int) (m : RaftMessage) : Prop :=
  ∀ q, m = .appendEntriesRequest q → q.term = t ∧ q.toId ≠ a

theorem emits_own (t : Nat) (a : Int) (b : Bool) :
    Emits (Leads t a) (OwnRequest t a) (sendAppendEntries b) := by
  apply emits_fields
  intro x _
  apply emits_forM
  intro p _
  apply emits_fields
  intro y hy
  apply emits_ite
  · intro _
    exact emits_pure ()
  intro hne
  apply emits_ite
  · intro _
    apply emits_push
    exact nofun
  · intro _
    apply emits_lookup
    intro u _
    apply emits_push
    intro q hq
    obtain rfl := RaftMessage.appendEntriesRequest.inj hq
    exact ⟨hy.term, hy.id ▸ hne⟩

/-- What is pushed behind a state that has pushed nothing. -/
theorem pushed_own {t : Nat} {a : Int} {b : Bool} {s s' : Scope} (hs : Leads t a s.raft)
    (he : pushedOf s.effects = []) (hend : endScope ((sendAppendEntries b).run s) = s')
    {q : RaftAppendEntriesRequestMessage}
    (hq : .appendEntriesRequest q ∈ pushedOf s'.effects) :
    q.term = s'.raft.term ∧ s'.raft.role = .leader ∧ q.toId ≠ a := by
  subst hend
  have hend := endScope_of_triple (emits_own t a b) (s := s)
    ⟨hs, by rw [he]; exact fun m hm => nomatch hm⟩
  obtain ⟨hterm, hto⟩ := hend.2 _ hq q rfl
  exact ⟨hterm.trans hend.1.term.symm, hend.1.role, hto⟩

/-- A request for entries is signed with the term of the node that sends it, which is a
leader at the end of the step, and it goes to another node. -/
theorem react_appends {q : RaftAppendEntriesRequestMessage}
    (h : .appendEntriesRequest q ∈ (r.react i).pushed) :
    q.term = (r.react i).raft.term ∧ (r.react i).raft.role = .leader ∧ q.toId ≠ r.id := by
  obtain ⟨p, hp, -⟩ := react_emitted r i _ h
  have hne : r.sendsTo i ≠ [] := List.ne_nil_of_mem hp
  rw [react_eq] at h ⊢
  cases i with
  | electionTimeout => exact absurd rfl hne
  | heartbeatTimeout =>
    have hrole : r.role = .leader := by
      by_contra hno
      exact hne (if_neg hno)
    refine pushed_own (s := { raft := r, effects := [] }) (b := true) ⟨rfl, rfl, hrole⟩ rfl ?_ h
    show _ = endScope (heartbeatTimeout.run _)
    rw [heartbeatTimeout, bind_run, fields_run]
    simp only [if_pos hrole]
  | message m =>
    cases m with
    | requestVoteResponse m =>
      obtain ⟨hrole, hterm, hvote, hmajority⟩ : r.role = .candidate ∧ m.term = r.term ∧
          m.voteGranted ∧ r.voteCount + 1 > r.peers.length / 2 := by
        by_contra hno
        exact hne (if_neg hno)
      refine pushed_own (b := true)
        (s := {
          raft := r.countVote.toLeader.setPeers
            (r.countVote.toLeader.peers.map r.countVote.toLeader.resetPeer)
          effects := [.persist r.countVote.toLeader.persistData] })
        ⟨rfl, rfl, rfl⟩ rfl ?_ h
      show _ = endScope ((handleRequestVoteResponse m).run _)
      rw [handleRequestVoteResponse, bind_run, fields_run]
      simp only
      rw [ite_run, if_neg (not_not.mpr hrole), ite_run, if_neg (by omega), ite_run,
        if_neg (by omega), ite_run, if_pos hvote, bind_run, assign_run]
      simp only
      rw [bind_run, fields_run]
      simp only
      rw [ite_run, if_pos (show r.countVote.voteCount > r.countVote.peers.length / 2 from
        hmajority)]
      rfl
    | kvOperationRequest m =>
      have hwrite : (r.writeOf m).isSome := by
        by_contra hno
        exact hne (if_neg hno)
      have hrole : r.role = .leader := by
        by_contra hno
        rw [writeOf, if_neg hno] at hwrite
        cases hwrite
      cases htext : commandText m.opType m.key m.value with
      | none =>
        rw [writeOf, if_pos hrole, htext] at hwrite
        cases hwrite
      | some text =>
        refine pushed_own (b := false)
          (s := {
            raft := (r.appendLogs [r.entryOf m text]).advanceLast
            effects := [.persist (r.appendLogs [r.entryOf m text]).persistData] })
          ⟨rfl, rfl, hrole⟩ rfl ?_ h
        show _ = endScope ((handleKVOperationRequest m).run _)
        rw [handleKVOperationRequest, bind_run, fields_run]
        simp only [if_neg (not_not.mpr hrole), htext]
        rfl
    | _ => exact absurd rfl hne

end Raft

end WWRaftKV
