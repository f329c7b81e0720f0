/-
Handing committed entries to the clerk.

As long as no step moves the commit index back, the core hands every index over once and
in order, and has at most one request with its clerk.  (A commit index that dips while a
request is outstanding and has recovered before the acknowledgement does no harm, but the
condition leaves such runs out.)  What is handed over for an index is the entry the node
has there (`react_handed`), in every step.
-/
import WWRaftKV.Node.Bookkeeping

namespace WWRaftKV

open Raft

/-! ## Windows -/

theorem applyWindow_append {a b c : Int} (hab : a ≤ b) (hbc : b ≤ c) :
    applyWindow a b ++ applyWindow b c = applyWindow a c := by
  unfold applyWindow
  have hlen : (c - a).toNat = (b - a).toNat + (c - b).toNat := by omega
  rw [hlen, List.range_add, List.map_append, List.map_map]
  congr 1
  refine List.map_congr_left fun k _ => ?_
  show b + 1 + (k : Int) = a + 1 + (((b - a).toNat + k : Nat) : Int)
  omega

theorem applyWindow_self (a : Int) : applyWindow a a = [] := by
  simp [applyWindow]

/-- The indices of a request are those right below its commit index. -/
theorem indexed_indices (m : ApplyCommitLogsRequestMessage) :
    m.indexed.map (·.1) = applyWindow (m.lastCommitIndex - m.entries.length)
      m.lastCommitIndex := by
  refine List.ext_getElem ?_ fun k hk hk' => ?_
  · rw [List.length_map, ApplyCommitLogsRequestMessage.indexed, List.length_mapIdx,
      length_applyWindow]
    omega
  · simp [ApplyCommitLogsRequestMessage.indexed, applyWindow]

/-- Number `k` of entries with consecutive indices. -/
theorem index_of_window {hd : List (Int × RaftLogEntry)} {a b : Int} {k : Nat}
    {x : Int × RaftLogEntry} (h : hd.map (·.1) = applyWindow a b) (hx : hd[k]? = some x) :
    x.1 = a + 1 + k := by
  have hmap : (hd.map (·.1))[k]? = some x.1 := by
    rw [List.getElem?_map, hx]
    rfl
  rw [h] at hmap
  exact (applyWindow_getElem? hmap).1

theorem length_indexed (m : ApplyCommitLogsRequestMessage) :
    m.indexed.length = m.entries.length := List.length_mapIdx

theorem handedBy_append (xs ys : List RaftMessage) :
    handedBy (xs ++ ys) = handedBy xs ++ handedBy ys := List.flatMap_append

theorem handedBy_quiet {m : RaftMessage} (h : m.Quiet) : handedBy [m] = [] := by
  cases m with
  | applyCommitLogsRequest m => exact absurd h id
  | _ => rfl

theorem handedBy_request (m : ApplyCommitLogsRequestMessage) :
    handedBy [.applyCommitLogsRequest m] = m.indexed := List.flatMap_singleton _ _

/-- What the loop of `_ApplyCommitLogs` collects, with its indices. -/
theorem mem_indexed_window {r : Raft} {es : List RaftLogEntry}
    (hes : (applyWindow r.lastAppliedIndex r.lastCommitIndex).mapM r.getLogAt = some es)
    {x : Int × RaftLogEntry}
    (hx : x ∈ ApplyCommitLogsRequestMessage.indexed
      { lastCommitIndex := r.lastCommitIndex, entries := es }) :
    r.getLogAt x.1 = some x.2 := by
  obtain ⟨hlen, hget⟩ := mapM_some hes
  rw [length_applyWindow] at hlen
  obtain ⟨k, hk, rfl⟩ := List.mem_mapIdx.mp hx
  obtain ⟨i, hi, hlog⟩ := hget k es[k] (List.getElem?_eq_getElem hk)
  obtain ⟨rfl, hlt⟩ := applyWindow_getElem? hi
  show r.getLogAt (r.lastCommitIndex - es.length + 1 + k) = some es[k]
  rw [show r.lastCommitIndex - es.length + 1 + k = r.lastAppliedIndex + 1 + k by omega]
  exact hlog

/-! ## What is handed over is the entry at its index -/

section Entries

variable {r s s' : Raft} {i : Input}

theorem Raft.SameLog.trans {t : Raft} (h : s.SameLog s') (h' : s'.SameLog t) : s.SameLog t :=
  ⟨h.logs.trans h'.logs, h.baseIndex.trans h'.baseIndex, h.lastLogIndex.trans h'.lastLogIndex⟩

theorem sameLog_of_marks (h : s.marks = r.marks) : s.SameLog r :=
  ⟨logs_of_marks h, baseIndex_of_marks h, lastLogIndex_of_marks h⟩

theorem canHand_of_sameLog (h : r.CanHand i s) (hs : s'.SameLog s) : r.CanHand i s' := by
  unfold CanHand at *
  split at h
  · exact ⟨h.1, hs.trans h.2⟩
  · exact hs.trans h
  · exact h

theorem not_rejects_of_canHand (h : r.CanHand i s) : ¬ r.Rejects i := by
  rintro ⟨m, rfl, hm⟩
  have ha : some true = some false := h.1.2.symm.trans hm
  cases ha

/-- Nothing has been handed over in this step, or the node's log will not change any more
and holds what has been. -/
def Entered (r : Raft) (i : Input) (s : Scope) : Prop :=
  handedBy (pushedOf s.effects) = [] ∨
    (r.CanHand i s.raft ∧ ∀ x ∈ handedBy (pushedOf s.effects), s.raft.getLogAt x.1 = some x.2)

theorem Entered.sameLog {a : Scope} (h : Entered r i a) (x : Raft) (hs : x.SameLog a.raft)
    {es : List Effect} (he : handedBy (pushedOf es) = handedBy (pushedOf a.effects)) :
    Entered r i { raft := x, effects := es } := by
  unfold Entered at *
  rw [he]
  refine h.imp_right fun ⟨hc, hx⟩ => ⟨canHand_of_sameLog hc hs, fun y hm => ?_⟩
  exact (hs.getLogAt y.1).trans (hx y hm)

theorem handedBy_emit {es : List Effect} {m : RaftMessage} (hm : m.Quiet) :
    handedBy (pushedOf (es ++ [.push m])) = handedBy (pushedOf es) := by
  rw [pushedOf_emit, handedBy_append, handedBy_quiet hm, List.append_nil]

theorem handedBy_persist (es : List Effect) (d : RaftPersistData) :
    handedBy (pushedOf (es ++ [.persist d])) = handedBy (pushedOf es) := by
  rw [pushedOf_save]

theorem Entered.change {a b : Scope} (hc : Change r i a b) (h : Entered r i a) :
    Entered r i b := by
  cases hc with
  | emit _ m hm => exact h.sameLog a.raft ⟨rfl, rfl, rfl⟩ (handedBy_emit hm)
  | turn _ r' hk => exact h.sameLog r' (sameLog_of_marks hk) rfl
  | vote _ r' hk => exact h.sameLog r' (sameLog_of_marks hk) (handedBy_persist _ _)
  | sync _ m hne hi ha hk =>
    rcases h with h | ⟨hcan, _⟩
    · exact .inl ((handedBy_persist _ _).trans h)
    · -- entries are handed over after step 3 only
      subst hi
      have hlogs := hcan.2.logs
      rw [logs_of_marks hk] at hlogs
      have hlen := congrArg List.length hlogs
      rw [sync, if_neg (by simpa using hne)] at hlen
      simp only [refreshLast_logs, appendLogs_logs, List.length_append] at hlen
      have hpos := List.length_pos_of_ne_nil hne
      omega
  | follow _ m =>
    exact h.sameLog (a.raft.setLastCommitIndex (min m.leaderCommit a.raft.lastLogIndex))
      ⟨rfl, rfl, rfl⟩ rfl
  | reject _ m t hi hm =>
    rcases h with h | ⟨hcan, _⟩
    · exact .inl h
    · exact absurd ⟨m, hi, hm⟩ (not_rejects_of_canHand hcan)
  | write m text => exact .inl rfl
  | confirm m => exact .inl rfl
  | hand _ es hl ha hes =>
    refine .inr ⟨canHand_of_sameLog hl ⟨rfl, rfl, rfl⟩, fun x hx => ?_⟩
    have hsplit : handedBy (pushedOf (a.effects ++ [.push (.applyCommitLogsRequest
        { lastCommitIndex := a.raft.lastCommitIndex, entries := es })])) =
        handedBy (pushedOf a.effects) ++ ApplyCommitLogsRequestMessage.indexed
          { lastCommitIndex := a.raft.lastCommitIndex, entries := es } := by
      rw [pushedOf_emit, handedBy_append, handedBy_request]
    rcases List.mem_append.mp (hsplit ▸ hx) with hx | hx
    · rcases h with h | ⟨_, hin⟩
      · rw [h] at hx
        exact absurd hx List.not_mem_nil
      · exact hin x hx
    · exact mem_indexed_window hes hx
  | applied m => exact .inl rfl
  | demand _ t =>
    refine h.sameLog (a.raft.setIsSnapshoting true) ⟨rfl, rfl, rfl⟩ ?_
    rw [pushedOf_append, handedBy_append]
    exact List.append_nil _
  | generated m => exact .inl rfl
  | installed m => exact .inl rfl

/-- Only a request for entries and the answer to one hand entries over. -/
theorem handedBy_pushed_eq_nil (h : ∀ s, ¬ r.CanHand i s) : handedBy (r.react i).pushed = [] := by
  obtain ⟨s, hs, heff, _⟩ := (react_breaks r i).reached
  have hin := hs.invariant (I := Entered r i) (.inl rfl) fun _ _ hc h => h.change hc
  have heff' : (r.react i).effects = s.effects := heff
  rw [Reaction.pushed, heff']
  exact hin.resolve_right fun hr => h _ hr.1

/-- What a step hands over for an index is the entry that the node has there at its end,
also when the step throws. -/
theorem react_handed (r : Raft) (i : Input) :
    ∀ x ∈ handedBy (r.react i).pushed, (r.react i).raft.getLogAt x.1 = some x.2 := by
  obtain ⟨s, hs, heff, _, _, hlog⟩ := (react_breaks r i).reached
  have hin := hs.invariant (I := Entered r i) (.inl rfl) fun _ _ hc h => h.change hc
  have heff' : (r.react i).effects = s.effects := heff
  intro x hx
  rw [Reaction.pushed, heff'] at hx
  rcases hin with hin | ⟨hcan, hin⟩
  · rw [hin] at hx
    exact absurd hx List.not_mem_nil
  · have hsame := hlog.resolve_right (not_rejects_of_canHand hcan)
    exact (hsame.getLogAt x.1).trans (hin x hx)

end Entries

/-! ## Every index once and in order -/

/-- No request moves the commit index of a follower back. -/
def FollowsForward (r : Raft) : Input → Prop
  | .message (.appendEntriesRequest m) => r.Accepts m →
    m.leaderCommit > r.lastCommitIndex → r.lastCommitIndex ≤ (r.sync m.entries).lastLogIndex
  | _ => True

/-- The steps that do not move the commit index back. -/
structure CommitsForward (r : Raft) (i : Input) : Prop where
  follow : FollowsForward r i
  confirm : ConfirmsForward r i

section Decide

variable (r : Raft) (i : Input)

instance : Decidable (FollowsForward r i) := by
  induction i using Input.casesOn with
  | message m =>
    induction m using RaftMessage.casesOn <;> unfold FollowsForward <;> infer_instance
  | _ => exact .isTrue trivial

instance : Decidable (CommitsForward r i) :=
  decidable_of_iff (FollowsForward r i ∧ ConfirmsForward r i)
    ⟨fun h => ⟨h.1, h.2⟩, fun h => ⟨h.follow, h.confirm⟩⟩

end Decide

/-- What has been handed over since index `a`: consecutive indices, up to the one that
the clerk is working on or that has been applied. -/
structure InTurn (a : Int) (r : Raft) (ch : List RaftMessage)
    (hd : List (Int × RaftLogEntry)) : Prop where
  indices : hd.map (·.1) = applyWindow a (a + hd.length)
  marks : ∀ m ∈ ch, ∀ k ∈ m.applyMark, k = a + hd.length
  one : ch.countP (·.aboutApply) ≤ if r.isApplying then 1 else 0
  idle : r.isApplying = false → r.lastAppliedIndex = a + hd.length
  ahead : a + hd.length ≤ r.lastCommitIndex

section InTurn

variable {a : Int} {r s : Raft} {i : Input} {ch ch' rest : List RaftMessage}
  {hd : List (Int × RaftLogEntry)} {m x : RaftMessage} {b : Bool}

theorem InTurn.queue (h : InTurn a r ch hd) :
    Queues (fun m => ∀ k ∈ m.applyMark, k = a + hd.length) (·.aboutApply)
      (if r.isApplying then 1 else 0) ch :=
  ⟨h.marks, h.one⟩

theorem InTurn.requeue (h : InTurn a r ch hd)
    (hq : Queues (fun m => ∀ k ∈ m.applyMark, k = a + hd.length) (·.aboutApply)
      (if r.isApplying then 1 else 0) ch') : InTurn a r ch' hd where
  indices := h.indices
  marks := hq.each
  one := hq.few
  idle := h.idle
  ahead := h.ahead

theorem InTurn.perm (h : InTurn a r ch hd) (hp : ch.Perm ch') : InTurn a r ch' hd :=
  h.requeue (h.queue.perm hp)

theorem InTurn.drop (h : InTurn a r (m :: ch) hd) : InTurn a r ch hd :=
  h.requeue h.queue.drop

theorem InTurn.unmarked (h : InTurn a r ch hd) (hm : m.applyMark = none)
    (ha : m.aboutApply = false) : InTurn a r (m :: ch) hd := by
  refine h.requeue (h.queue.other ?_ ha)
  rw [hm]
  exact nofun

theorem InTurn.quiet (h : InTurn a r ch hd) (hm : m.Quiet) : InTurn a r (m :: ch) hd :=
  h.unmarked hm.applyMark hm.aboutApply

theorem InTurn.answer (h : InTurn a r (x :: ch) hd) (hm : clerkAnswer b x = some m) :
    InTurn a r (m :: ch) hd := by
  obtain ⟨hmark, habout⟩ := clerkAnswer_apply hm
  refine h.requeue (h.queue.swap ?_ habout)
  rw [hmark]
  exact h.marks x List.mem_cons_self

/-- The commit index may move forward. -/
theorem InTurn.forward (h : InTurn a r ch hd) (hf : s.isApplying = r.isApplying)
    (ha : s.lastAppliedIndex = r.lastAppliedIndex)
    (hc : r.lastCommitIndex ≤ s.lastCommitIndex) : InTurn a s ch hd where
  indices := h.indices
  marks := h.marks
  one := by
    rw [hf]
    exact h.one
  idle := by
    rw [hf, ha]
    exact h.idle
  ahead := Int.le_trans h.ahead hc

theorem InTurn.of_marks (h : InTurn a r ch hd) (hm : s.marks = r.marks) : InTurn a s ch hd :=
  h.forward (isApplying_of_marks hm) (lastAppliedIndex_of_marks hm)
    (Int.le_of_eq (lastCommitIndex_of_marks hm).symm)

theorem InTurn.emit {es : List Effect} (h : InTurn a r (m :: (rest ++ pushedOf es)) hd) :
    InTurn a r (rest ++ pushedOf (es ++ [.push m])) hd :=
  h.perm (emit_perm m rest es)

theorem InTurn.persist {es : List Effect} {d : RaftPersistData}
    (h : InTurn a r (rest ++ pushedOf es) hd) :
    InTurn a r (rest ++ pushedOf (es ++ [.persist d])) hd := by
  rw [pushedOf_save]
  exact h

/-- The next request takes up where the last one ended. -/
theorem InTurn.hand (h : InTurn a r ch hd) (ha : r.isApplying = false)
    {es : List RaftLogEntry}
    (hes : (applyWindow r.lastAppliedIndex r.lastCommitIndex).mapM r.getLogAt = some es)
    {q : ApplyCommitLogsRequestMessage}
    (hq : q = { lastCommitIndex := r.lastCommitIndex, entries := es }) :
    InTurn a (r.setIsApplying true) (.applyCommitLogsRequest q :: ch) (hd ++ q.indexed) := by
  have h0 : ch.countP (·.aboutApply) = 0 := by
    have hone := h.one
    rw [ha] at hone
    exact Nat.le_zero.mp hone
  have hidle := h.idle ha
  have hahead := h.ahead
  obtain ⟨hlen, _⟩ := mapM_some hes
  rw [length_applyWindow] at hlen
  have hqlen : q.indexed.length = es.length := by rw [length_indexed, hq]
  have hend : a + ((hd ++ q.indexed).length : Int) = r.lastCommitIndex := by
    rw [List.length_append, hqlen]
    omega
  refine ⟨?_, ?_, ?_, (fun hf => nomatch hf), Int.le_of_eq hend⟩
  · have hstart : r.lastCommitIndex - (es.length : Int) = a + hd.length := by omega
    rw [List.map_append, h.indices, indexed_indices, hend, hq]
    show applyWindow a (a + hd.length) ++
      applyWindow (r.lastCommitIndex - es.length) r.lastCommitIndex = _
    rw [hstart]
    exact applyWindow_append (by omega) hahead
  · intro m hm k hk
    rcases List.mem_cons.mp hm with rfl | hm
    · obtain rfl := Option.some.inj hk
      rw [hend, hq]
    · have hnone := List.countP_eq_zero.mp h0 m hm
      rw [applyMark_eq_none (by simpa using hnone)] at hk
      cases hk
  · rw [List.countP_cons, h0]
    exact Nat.le_refl 1

/-- The acknowledgement of what has been handed over. -/
theorem InTurn.applied (h : InTurn a r ch hd) (h0 : ch.countP (·.aboutApply) = 0) {k : Int}
    (hk : k = a + hd.length) : InTurn a ((r.setLastAppliedIndex k).setIsApplying false) ch hd where
  indices := h.indices
  marks := h.marks
  one := by
    rw [h0]
    exact Nat.zero_le _
  idle := fun _ => hk
  ahead := h.ahead

/-- What the message handled says about the hand-over. -/
theorem InTurn.acknowledged {q : ApplyCommitLogsResponseMessage}
    (h : InTurn a r (.applyCommitLogsResponse q :: rest) hd) :
    q.lastCommitIndex = a + hd.length ∧ rest.countP (·.aboutApply) = 0 := by
  refine ⟨h.marks _ List.mem_cons_self _ rfl, ?_⟩
  have hone := h.one
  have hle : (if r.isApplying then 1 else 0) ≤ 1 := by split <;> omega
  rw [List.countP_cons_of_pos rfl] at hone
  omega

theorem sync_lastCommitIndex (r : Raft) (es : List RaftLogEntry) :
    (r.sync es).lastCommitIndex = r.lastCommitIndex := by
  unfold sync
  split <;> rfl

theorem InTurn.change (hg : CommitsForward r i) (hr : InTurn a r (i.taken ++ rest) hd)
    {c d : Scope} (hc : Change r i c d)
    (h : InTurn a c.raft (rest ++ pushedOf c.effects) (hd ++ handedBy (pushedOf c.effects))) :
    InTurn a d.raft (rest ++ pushedOf d.effects) (hd ++ handedBy (pushedOf d.effects)) := by
  cases hc with
  | emit _ m hm =>
    show InTurn a c.raft _ (hd ++ handedBy (pushedOf (c.effects ++ [.push m])))
    rw [handedBy_emit hm]
    exact (h.quiet hm).emit
  | turn _ r' hk => exact h.of_marks hk
  | vote _ r' hk =>
    show InTurn a r' _ (hd ++ handedBy (pushedOf (c.effects ++ [.persist r'.persistData])))
    rw [handedBy_persist]
    exact (h.of_marks hk).persist
  | sync _ m hne =>
    show InTurn a _ _ (hd ++ handedBy (pushedOf (c.effects ++ [.persist _])))
    rw [handedBy_persist]
    exact (h.forward (s := (c.raft.appendLogs m.entries).refreshLast) rfl rfl
      (Int.le_refl _)).persist
  | follow _ m hi hlt ha hk =>
    subst hi
    refine h.forward rfl rfl ?_
    have hcommit := lastCommitIndex_of_marks hk
    rw [sync_lastCommitIndex] at hcommit
    have hle := hg.follow ha (hcommit ▸ hlt)
    rw [← lastLogIndex_of_marks hk] at hle
    show c.raft.lastCommitIndex ≤ min m.leaderCommit c.raft.lastLogIndex
    omega
  | reject _ m t =>
    exact h.forward (truncateAfter_isApplying _ _) (truncateAfter_lastAppliedIndex _ _)
      (Int.le_of_eq (truncateAfter_lastCommitIndex _ _).symm)
  | write m text =>
    have h' := (h.forward (s := (r.appendLogs [r.entryOf m text]).advanceLast) rfl rfl
      (Int.le_refl _)).persist (d := (r.appendLogs [r.entryOf m text]).persistData)
    exact h'
  | confirm m hi hl ht hs hk =>
    subst hi
    exact h.forward rfl rfl (hg.confirm hl ht hs hk)
  | hand _ es hl ha hes =>
    have h' := (h.hand ha hes rfl).emit
    rw [List.append_assoc, ← handedBy_request, ← handedBy_append] at h'
    show InTurn a _ _ (hd ++ handedBy (pushedOf (c.effects ++ [.push _])))
    rw [pushedOf_emit]
    exact h'
  | applied m hi =>
    subst hi
    obtain ⟨hk, h0⟩ := hr.acknowledged
    have h' : InTurn a r rest hd := hr.drop
    show InTurn a _ (rest ++ []) (hd ++ [])
    rw [List.append_nil, List.append_nil]
    exact h'.applied h0 hk
  | demand _ t =>
    have h' := (h.forward (s := c.raft.setIsSnapshoting true) rfl rfl (Int.le_refl _)).unmarked
      (m := .generateSnapshotRequest
        { lastAppliedIndex := c.raft.lastAppliedIndex, lastAppliedTerm := t }) rfl rfl
    have hsame : handedBy (pushedOf (c.effects ++ [.push (.generateSnapshotRequest
        { lastAppliedIndex := c.raft.lastAppliedIndex, lastAppliedTerm := t })])) =
        handedBy (pushedOf c.effects) := by
      rw [pushedOf_emit, handedBy_append]
      exact List.append_nil _
    show InTurn a _ _ (hd ++ handedBy (pushedOf (c.effects ++ [.push _])))
    rw [hsame]
    exact h'.emit
  | generated m =>
    exact h.forward (truncateBefore_isApplying _ r) (truncateBefore_lastAppliedIndex _ r)
      (Int.le_of_eq (truncateBefore_lastCommitIndex _ r).symm)
  | installed m =>
    exact h.forward (truncateBefore_isApplying _ r) (truncateBefore_lastAppliedIndex _ r)
      (Int.le_of_eq (truncateBefore_lastCommitIndex _ r).symm)

end InTurn

/-! ## Runs -/

section Step

variable {a : Int} {r : Raft} {i : Input} {rest : List RaftMessage}
  {hd : List (Int × RaftLogEntry)}

/-- What a step leaves behind, also when it throws, has been handed over in turn by some
state with its channel. -/
theorem InTurn.reached (h : InTurn a r (i.taken ++ rest) hd) (hg : CommitsForward r i)
    {s : Scope} (hs : Goes r i s) :
    InTurn a s.raft (rest ++ pushedOf s.effects) (hd ++ handedBy (pushedOf s.effects)) := by
  refine hs.invariant (I := fun s => InTurn a s.raft (rest ++ pushedOf s.effects)
    (hd ++ handedBy (pushedOf s.effects))) ?_ fun _ _ hc => InTurn.change hg h hc
  have hstart : InTurn a r rest hd := by
    cases i with
    | message m => exact InTurn.drop h
    | _ => exact h
  show InTurn a r (rest ++ []) (hd ++ [])
  rw [List.append_nil, List.append_nil]
  exact hstart

end Step

/-- The hand-over so far, as a process that may have ended shows it. -/
structure View.Handed (a : Int) (v : View) : Prop where
  indices : v.handed.map (·.1) = applyWindow a (a + v.handed.length)
  one : v.channel.countP (·.aboutApply) ≤ 1

theorem InTurn.handed {a : Int} {r : Raft} {v : View}
    (h : InTurn a r v.channel v.handed) : v.Handed a where
  indices := h.indices
  one := Nat.le_trans h.one (by split <;> omega)

theorem upholds_inTurn (a : Int) : Upholds CommitsForward
    (fun v => InTurn a v.raft v.channel v.handed) (View.Handed a) where
  perm := fun _ _ h hp => h.perm hp
  permWeak := fun _ _ h hp => ⟨h.indices, hp.countP_eq _ ▸ h.one⟩
  receive := fun _ _ h hm => h.quiet (quiet_of_not_isLocal hm)
  drop := fun _ _ _ h hc => InTurn.drop (hc ▸ h)
  answer := fun _ _ _ _ _ h hc hm => InTurn.answer (hc ▸ h) hm
  core := fun _ _ _ h hc hg ht => InTurn.reached (hc ▸ h) hg (react_goes ht)
  dies := by
    intro v i ch h hc hg
    obtain ⟨s, hs, heff, _⟩ := (react_breaks v.raft i).reached
    have heff' : (v.raft.react i).pushed = pushedOf s.effects := congrArg pushedOf heff
    have hin := InTurn.reached (hc ▸ h) hg hs
    rw [← heff'] at hin
    exact InTurn.handed (v := v.react i ch) hin
  weak := fun _ h => h.handed

namespace Process

/-- The clerk gets the entries of the log one after the other, each once, from the one
behind index `a` on. -/
structure HandsOver (a : Int) (p : Process) : Prop where
  outstanding : p.channel.countP (·.aboutApply) ≤ 1
  indices : p.handed.map (·.1) = applyWindow a (a + p.handed.length)
  entries : ∀ s ∈ p.history, ∀ x ∈ s.handed, s.post.getLogAt x.1 = some x.2

variable {p p' : Process} {e : Event}

/-- What a turn of the core leaves of the process. -/
structure Turned (p p' : Process) (t : Input) : Prop where
  raft : p'.raft = (p.raft.react t).raft
  inner : p'.inner.map (·.msg) = p.inner.map (·.msg) ++ (p.raft.react t).pushed
  handed : p'.handed = p.handed ++ handedBy (p.raft.react t).pushed
  returns : (p.raft.react t).thrown = false

theorem turned_react (p : Process) (outter : List Item) (t : Input) (cause : Option Nat)
    (halive : ({ p with outter := outter }.react t cause).alive = true) :
    Turned p ({ p with outter := outter }.react t cause) t where
  raft := rfl
  inner := by
    show (p.inner ++ (p.raft.react t).pushed.map fun m =>
      ({ msg := m, cause := cause } : Item)).map _ = _
    rw [List.map_append, List.map_map]
    congr 1
    exact List.map_id _
  handed := by
    show (p.history ++ [_]).flatMap CoreStep.handed = _
    rw [List.flatMap_append, List.flatMap_singleton]
    rfl
  returns := Bool.not_eq_true' _ ▸ halive

theorem Turned.grows {t : Input} (ht : Turned p p' t) : p.handed.length ≤ p'.handed.length := by
  rw [ht.handed, List.length_append]
  exact Nat.le_add_right _ _

/-- A step writes down what the core has done in it, and nothing else. -/
theorem step_history (h : p.step e = some p') :
    p'.history = p.history ∨ ∃ i ∈ p.turn e, p'.history = p.history ++
      [{ node := p.raft.id, pre := p.raft, post := (p.raft.react i).raft,
         pushed := (p.raft.react i).pushed }] := by
  unfold step at h
  split at h
  case isFalse => cases h
  cases e with
  | electionTimeout => exact .inr ⟨.electionTimeout, rfl, Option.some.inj h ▸ rfl⟩
  | heartbeatTimeout => exact .inr ⟨.heartbeatTimeout, rfl, Option.some.inj h ▸ rfl⟩
  | handle =>
    cases ho : p.outter with
    | nil => simp [stepAlive, ho] at h
    | cons x xs =>
      simp only [stepAlive, ho, Option.some.injEq] at h
      exact .inr ⟨.message x.msg, by simp [turn, ho], h ▸ rfl⟩
  | request conn m =>
    obtain ⟨m', _, rfl⟩ := Option.map_eq_some_iff.mp h
    exact .inl rfl
  | lostRequest conn => exact .inl (Option.some.inj h ▸ rfl)
  | response m =>
    simp only [stepAlive] at h
    split at h
    · exact .inl (Option.some.inj h ▸ rfl)
    · cases h
  | operation m => exact .inl (Option.some.inj h ▸ rfl)
  | clerk b =>
    cases hx : p.inner with
    | nil => simp [stepAlive, hx] at h
    | cons x xs =>
      simp only [stepAlive, hx, Option.some.injEq] at h
      subst h
      unfold serve
      cases x.msg.replySeq with
      | some seq => exact .inl rfl
      | none => cases clerkAnswer b x.msg <;> exact .inl rfl

theorem handed_entries {ok : Process → Event → Prop} {id : Int} {ids : List Int}
    {file : Option RaftPersistData} (hr : Reaches ok id ids file p) :
    ∀ s ∈ p.history, ∀ x ∈ s.handed, s.post.getLogAt x.1 = some x.2 := by
  obtain ⟨es, hr⟩ := hr
  refine hr.invariant (I := fun p => ∀ s ∈ p.history, ∀ x ∈ s.handed,
    s.post.getLogAt x.1 = some x.2) ?_ fun s hs => absurd hs List.not_mem_nil
  intro q e q' hi _ hs s hm
  obtain hh | ⟨i, _, hh⟩ := step_history hs
  · exact hi s (hh ▸ hm)
  · rw [hh] at hm
    rcases List.mem_append.mp hm with hm | hm
    · exact hi s hm
    · obtain rfl := List.mem_singleton.mp hm
      exact react_handed q.raft i

end Process

open Process

theorem inTurn_init (id : Int) (ids : List Int) (file : Option RaftPersistData) :
    InTurn (restart id ids file).lastIncludedIndex (restart id ids file) [] [] := by
  obtain ⟨hc, ha⟩ := restart_marks id ids file
  refine ⟨?_, ?_, Nat.zero_le _, ?_, ?_⟩
  · simp [applyWindow_self]
  · exact fun m hm => absurd hm List.not_mem_nil
  · simpa using fun _ => ha
  · simp [hc]

/-- Every entry is handed to the clerk once and in order, in every run that does not move
the commit index back. -/
theorem handsOver_of_commitsForward (id : Int) (ids : List Int)
    (file : Option RaftPersistData) (p : Process)
    (hr : Reaches (Obeys CommitsForward) id ids file p) :
    p.HandsOver (restart id ids file).lastIncludedIndex := by
  have h := ((upholds_inTurn _).reaches (inTurn_init id ids file) hr).2
  exact ⟨h.one, h.indices, handed_entries hr⟩

theorem handsOver_one :
    ∃ p, Reaches (Obeys CommitsForward) 1 [0, 1, 2] none p ∧ p.handed.length = 3 ∧
      p.HandsOver 0 := by
  obtain ⟨p, hr, hp⟩ := Reaches.of_exec (Obeys CommitsForward) 1 [0, 1, 2] none snapshotTaken
    (fun p => decide (p.handed.length = 3)) (by decide +kernel)
  exact ⟨p, hr, of_decide_eq_true hp, handsOver_of_commitsForward 1 [0, 1, 2] none p hr⟩

/-- A leader has had two entries applied when an older answer of the same peer arrives. -/
def answersOvertake : List Event :=
  [.electionTimeout, .response (.requestVoteResponse { term := 1, voteGranted := true }), .handle,
    .operation { uuid := ['u'], seq := 1, opType := .put, key := ['a'], value := ['1'] }, .handle,
    .operation { uuid := ['u'], seq := 2, opType := .put, key := ['b'], value := ['2'] },
    .handle] ++
  -- everything sent so far has left the channel before the answers come
  List.replicate 8 (.clerk true) ++
  [.response (.appendEntriesResponse
      { term := 1, fromId := 1, success := true, lastLogIndex := 2 }),
    .handle, .clerk true, .handle,
    .response (.appendEntriesResponse
      { term := 1, fromId := 1, success := true, lastLogIndex := 1 }),
    .handle, .clerk true, .handle,
    .response (.appendEntriesResponse
      { term := 1, fromId := 1, success := true, lastLogIndex := 2 }),
    .handle]

theorem entry_handed_twice :
    ¬ ∀ (id : Int) (ids : List Int) (file : Option RaftPersistData) (p : Process),
      Reaches (Obeys anyInput) id ids file p →
        p.HandsOver (restart id ids file).lastIncludedIndex := by
  intro h
  obtain ⟨p, hr, hp⟩ := Reaches.of_exec (Obeys anyInput) 0 [0, 1, 2] none answersOvertake
    (fun p => decide (p.handed.map (·.1) = [1, 2, 2])) (by decide +kernel)
  have hindices := (h 0 [0, 1, 2] none p hr).indices
  have hlen := congrArg List.length (of_decide_eq_true hp)
  rw [List.length_map] at hlen
  rw [of_decide_eq_true hp, hlen] at hindices
  exact absurd hindices (by decide)

end WWRaftKV
