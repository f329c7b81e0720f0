/-
Looking up entries of the vector.

`_GetTermAt`, `_GetLogAt`, `_GetLogFrom` and `_TruncateBefore` test an index against
`_Base_index` and `_Last_log_index`, and go to the vector with what passes.  That is within
the vector as long as these two describe it, and as long as the entries that are still to
be applied have not been cut off.  `InReach` says both.
-/
import WWRaftKV.Node.Bookkeeping

namespace WWRaftKV

open Raft

namespace Raft

/-! ## Access -/

/-- The iterator `_Logs.begin() + j - _Base_index` does not pass the end of the vector. -/
def IteratorWithin (r : Raft) (j : Int) : Prop := j - r.baseIndex ≤ r.logs.length

/-- The call `_GetLogFrom(j)` stays within the vector. -/
def CopiesWithin (r : Raft) (j : Int) : Prop :=
  ¬ (j < r.baseIndex ∨ j > r.lastLogIndex) → r.IteratorWithin j

/-- The call `_TruncateBefore(j)` stays within the vector. -/
def ErasesWithin (r : Raft) (j : Int) : Prop :=
  ¬ (j ≤ r.baseIndex ∨ j > r.lastLogIndex + 1) → r.IteratorWithin j

/-- The iterators that a handler forms: after a client write one for the entries of every
other peer, and one for the erasure after a snapshot. -/
def IteratorsWithin (r : Raft) : Input → Prop
  | .message (.kvOperationRequest m) => r.role = .leader →
    ∀ text, commandText m.opType m.key m.value = some text → ∀ p ∈ r.peers, p.id ≠ r.id →
      ((r.appendLogs [r.entryOf m text]).advanceLast).CopiesWithin p.nextIndex
  | .message (.generateSnapshotResponse m) =>
    ¬ (m.lastAppliedIndex = -1 ∧ m.lastAppliedTerm = 0) →
      r.ErasesWithin (m.lastAppliedIndex + 1)
  | .message (.applySnapshotResponse m) =>
    ¬ (m.lastIncludedIndex = -1 ∧ m.lastIncludedTerm = 0) →
      r.ErasesWithin m.lastIncludedIndex
  | _ => True

/-- No lookup of the step throws, and no iterator leaves the vector. -/
structure LooksWithin (r : Raft) (i : Input) : Prop where
  returns : (r.react i).thrown = false
  iterators : r.IteratorsWithin i

/-- The base and the last index describe the vector. -/
def Whole (r : Raft) : Prop := r.lastLogIndex = r.baseIndex + r.logs.length - 1

section Whole

variable {r s : Raft} {i : Input} {j : Int}

theorem Whole.of_eq (h : r.Whole) (hl : s.logs = r.logs) (hb : s.baseIndex = r.baseIndex)
    (hi : s.lastLogIndex = r.lastLogIndex) : s.Whole := by
  unfold Whole at *
  rw [hl, hb, hi]
  exact h

theorem Whole.of_marks (h : r.Whole) (hm : s.marks = r.marks) : s.Whole :=
  h.of_eq (logs_of_marks hm) (baseIndex_of_marks hm) (lastLogIndex_of_marks hm)

theorem Whole.write (h : r.Whole) (e : RaftLogEntry) :
    ((r.appendLogs [e]).advanceLast).Whole := by
  unfold Whole at *
  simp only [advanceLast_lastLogIndex, appendLogs_lastLogIndex, advanceLast_baseIndex,
    appendLogs_baseIndex, advanceLast_logs, appendLogs_logs, List.length_append,
    List.length_singleton]
  omega

theorem Whole.truncateBefore (h : r.Whole) (j : Int) : (r.truncateBefore j).Whole := by
  unfold Raft.truncateBefore
  split
  · exact h
  · unfold Whole at *
    simp only [dropTo_lastLogIndex, dropTo_baseIndex, dropTo_logs, List.length_drop]
    omega

theorem Whole.copiesWithin (h : r.Whole) (j : Int) : r.CopiesWithin j := by
  unfold Whole at h
  unfold CopiesWithin IteratorWithin
  omega

theorem Whole.erasesWithin (h : r.Whole) (j : Int) : r.ErasesWithin j := by
  unfold Whole at h
  unfold ErasesWithin IteratorWithin
  omega

theorem Whole.iteratorsWithin (h : r.Whole) (i : Input) : r.IteratorsWithin i := by
  unfold IteratorsWithin
  split
  · exact fun _ text _ p _ _ => (h.write _).copiesWithin p.nextIndex
  · exact fun _ => h.erasesWithin _
  · exact fun _ => h.erasesWithin _
  · trivial

theorem Whole.logsAt (h : r.Whole) (hb : r.baseIndex ≤ j) (hl : j ≤ r.lastLogIndex) :
    ∃ e, r.logsAt (j - r.baseIndex) = some e := by
  unfold Whole at h
  have hlt : (j - r.baseIndex).toNat < r.logs.length := by omega
  refine ⟨r.logs[(j - r.baseIndex).toNat], ?_⟩
  unfold Raft.logsAt
  rw [if_neg (by omega)]
  exact List.getElem?_eq_getElem hlt

theorem Whole.getTermAt (h : r.Whole) (j : Int) : ∃ t, r.getTermAt j = some t := by
  unfold Raft.getTermAt
  split
  · exact ⟨_, rfl⟩
  split
  · exact ⟨_, rfl⟩
  · obtain ⟨e, he⟩ := h.logsAt (j := j) (by omega) (by omega)
    exact ⟨e.term, by rw [he]; rfl⟩

theorem Whole.getLogAt (h : r.Whole) (hb : r.baseIndex ≤ j) (hl : j ≤ r.lastLogIndex) :
    ∃ e, r.getLogAt j = some e := by
  unfold Raft.getLogAt
  rw [if_neg (by omega)]
  exact h.logsAt hb hl

end Whole

/-! ## The reach of a node -/

/-- A message between core and clerk names indices from `a` to `c`, and for a snapshot none
above `a`. -/
def Marked (a c : Int) (m : RaftMessage) : Prop :=
  (∀ k ∈ m.applyMark, a ≤ k ∧ k ≤ c) ∧ ∀ x ∈ m.snapshotMark, x.1 ≤ a

/-- The entries behind the applied index are all in the vector, up to the commit index. -/
structure InReach (r : Raft) (ch : List RaftMessage) : Prop where
  whole : r.Whole
  base : r.baseIndex ≤ r.lastAppliedIndex + 1
  applied : r.lastAppliedIndex ≤ r.lastCommitIndex
  commit : r.lastCommitIndex ≤ r.lastLogIndex
  queue : Queues (Marked r.lastAppliedIndex r.lastCommitIndex) (·.aboutApply)
    (if r.isApplying then 1 else 0) ch

/-- A previous entry that is missing does not lie in the vector with another term. -/
def MismatchesOutside (r : Raft) : Input → Prop
  | .message (.appendEntriesRequest m) => r.term ≤ m.term →
    r.logMatch m.prevLogIndex m.prevLogTerm = some false →
      m.prevLogIndex < r.baseIndex ∨ m.prevLogIndex > r.lastLogIndex
  | _ => True

/-- A snapshot that has been installed does not cut off entries that are still to be
applied. -/
def InstallsBehind (r : Raft) : Input → Prop
  | .message (.applySnapshotResponse m) =>
    ¬ (m.lastIncludedIndex = -1 ∧ m.lastIncludedTerm = 0) →
      m.lastIncludedIndex ≤ r.lastAppliedIndex + 1 ∨ m.lastIncludedIndex > r.lastLogIndex + 1
  | _ => True

/-- An answer moves the commit index of a leader within its log, and not back. -/
def ConfirmsWithin (r : Raft) : Input → Prop
  | .message (.appendEntriesResponse m) => r.role = .leader → m.term ≤ r.term →
    m.success = true → (r.progress m).getTermAt (r.progress m).majorityMatch = some r.term →
      r.lastCommitIndex ≤ (r.progress m).majorityMatch ∧
        (r.progress m).majorityMatch ≤ r.lastLogIndex
  | _ => True

/-- The steps that keep everything in reach. -/
structure KeepsReach (r : Raft) (i : Input) : Prop where
  mismatch : MismatchesOutside r i
  install : InstallsBehind r i
  confirm : ConfirmsWithin r i

section Decide

variable (r : Raft) (i : Input)

instance : Decidable (MismatchesOutside r i) := by
  induction i using Input.casesOn with
  | message m =>
    induction m using RaftMessage.casesOn <;> unfold MismatchesOutside <;> infer_instance
  | _ => exact .isTrue trivial

instance : Decidable (InstallsBehind r i) := by
  induction i using Input.casesOn with
  | message m =>
    induction m using RaftMessage.casesOn <;> unfold InstallsBehind <;> infer_instance
  | _ => exact .isTrue trivial

instance : Decidable (ConfirmsWithin r i) := by
  induction i using Input.casesOn with
  | message m =>
    induction m using RaftMessage.casesOn <;> unfold ConfirmsWithin <;> infer_instance
  | _ => exact .isTrue trivial

instance : Decidable (KeepsReach r i) :=
  decidable_of_iff (MismatchesOutside r i ∧ InstallsBehind r i ∧ ConfirmsWithin r i)
    ⟨fun h => ⟨h.1, h.2.1, h.2.2⟩, fun h => ⟨h.mismatch, h.install, h.confirm⟩⟩

end Decide

/-! ## One step -/

section Step

variable {r s : Raft} {i : Input} {rest ch ch' : List RaftMessage} {m x : RaftMessage}

theorem Marked.quiet {a c : Int} (hm : m.Quiet) : Marked a c m := by
  unfold Marked
  rw [hm.applyMark, hm.snapshotMark]
  exact ⟨nofun, nofun⟩

theorem InReach.perm (h : InReach r ch) (hp : ch.Perm ch') : InReach r ch' :=
  ⟨h.whole, h.base, h.applied, h.commit, h.queue.perm hp⟩

theorem InReach.drop (h : InReach r (m :: ch)) : InReach r ch :=
  ⟨h.whole, h.base, h.applied, h.commit, h.queue.drop⟩

theorem InReach.quiet (h : InReach r ch) (hm : m.Quiet) : InReach r (m :: ch) :=
  ⟨h.whole, h.base, h.applied, h.commit, h.queue.other (Marked.quiet hm) hm.aboutApply⟩

theorem InReach.answer {b : Bool} (h : InReach r (x :: ch)) (hm : clerkAnswer b x = some m) :
    InReach r (m :: ch) := by
  obtain ⟨hmark, habout⟩ := clerkAnswer_apply hm
  obtain ⟨happly, hsnap⟩ := h.queue.each x List.mem_cons_self
  refine ⟨h.whole, h.base, h.applied, h.commit, h.queue.swap ⟨?_, ?_⟩ habout⟩
  · rw [hmark]
    exact happly
  · exact fun y hy => hsnap y (clerkAnswer_snapshotMark hm y hy)

/-- The vector grows at its end, and the commit index does not move back. -/
theorem InReach.forward (h : InReach r ch) (hw : s.Whole) (hb : s.baseIndex = r.baseIndex)
    (ha : s.lastAppliedIndex = r.lastAppliedIndex) (hf : s.isApplying = r.isApplying)
    (hc : r.lastCommitIndex ≤ s.lastCommitIndex) (hl : s.lastCommitIndex ≤ s.lastLogIndex) :
    InReach s ch where
  whole := hw
  base := by
    rw [hb, ha]
    exact h.base
  applied := by
    rw [ha]
    exact Int.le_trans h.applied hc
  commit := hl
  queue := by
    rw [ha, hf]
    refine h.queue.mono ?_ (Nat.le_refl _)
    exact fun m _ hm => ⟨fun k hk => ⟨(hm.1 k hk).1, Int.le_trans (hm.1 k hk).2 hc⟩, hm.2⟩

theorem InReach.of_marks (h : InReach r ch) (hm : s.marks = r.marks) : InReach s ch := by
  apply h.forward (h.whole.of_marks hm) (baseIndex_of_marks hm) (lastAppliedIndex_of_marks hm)
    (isApplying_of_marks hm)
  · rw [lastCommitIndex_of_marks hm]
  · rw [lastCommitIndex_of_marks hm, lastLogIndex_of_marks hm]
    exact h.commit

theorem InReach.emit {es : List Effect} (h : InReach r (m :: (rest ++ pushedOf es))) :
    InReach r (rest ++ pushedOf (es ++ [.push m])) :=
  h.perm (emit_perm m rest es)

theorem InReach.persist {es : List Effect} {d : RaftPersistData}
    (h : InReach r (rest ++ pushedOf es)) :
    InReach r (rest ++ pushedOf (es ++ [.persist d])) := by
  rw [pushedOf_save]
  exact h

/-- Cutting off nothing but entries that have been applied. -/
theorem InReach.truncateBefore (h : InReach r ch) {j : Int}
    (hj : j ≤ r.lastAppliedIndex + 1 ∨ j > r.lastLogIndex + 1) :
    InReach (r.truncateBefore j) ch := by
  have hbase : (r.truncateBefore j).baseIndex ≤ r.lastAppliedIndex + 1 := by
    have hb := h.base
    unfold Raft.truncateBefore
    split
    · exact hb
    · show j ≤ _
      omega
  refine ⟨h.whole.truncateBefore j, ?_, ?_, ?_, ?_⟩
  · rw [truncateBefore_lastAppliedIndex]
    exact hbase
  · rw [truncateBefore_lastAppliedIndex, truncateBefore_lastCommitIndex]
    exact h.applied
  · rw [truncateBefore_lastCommitIndex, truncateBefore_lastLogIndex]
    exact h.commit
  · rw [truncateBefore_lastAppliedIndex, truncateBefore_lastCommitIndex, truncateBefore_isApplying]
    exact h.queue

/-- The message handled is about the applied index, and the only one of its kind. -/
theorem InReach.acknowledged {q : ApplyCommitLogsResponseMessage}
    (h : InReach r (.applyCommitLogsResponse q :: rest)) :
    (r.lastAppliedIndex ≤ q.lastCommitIndex ∧ q.lastCommitIndex ≤ r.lastCommitIndex) ∧
      rest.countP (·.aboutApply) = 0 := by
  refine ⟨(h.queue.each _ List.mem_cons_self).1 _ rfl, ?_⟩
  refine Queues.countP_eq_zero (h.queue.mono (fun _ _ hm => hm) ?_) rfl
  split <;> omega

theorem InReach.apply (h : InReach r rest) {k : Int} (hk : r.lastAppliedIndex ≤ k)
    (hc : k ≤ r.lastCommitIndex) (h0 : rest.countP (·.aboutApply) = 0) :
    InReach ((r.setLastAppliedIndex k).setIsApplying false) rest where
  whole := h.whole.of_eq rfl rfl rfl
  base := by
    have hb := h.base
    show r.baseIndex ≤ k + 1
    omega
  applied := hc
  commit := h.commit
  queue := by
    refine ⟨fun m hm => ⟨?_, fun x hx => ?_⟩, Nat.le_of_eq h0⟩
    · have hnone := List.countP_eq_zero.mp h0 m hm
      rw [applyMark_eq_none (by simpa using hnone)]
      exact nofun
    · exact Int.le_trans ((h.queue.each m hm).2 x hx) hk

theorem InReach.change (hk : KeepsReach r i) (hr : InReach r (i.taken ++ rest)) {a b : Scope}
    (hc : Change r i a b) (h : InReach a.raft (rest ++ pushedOf a.effects)) :
    InReach b.raft (rest ++ pushedOf b.effects) := by
  have hlast := h.commit
  cases hc with
  | emit _ m hm => exact (h.quiet hm).emit
  | turn _ r' hm => exact h.of_marks hm
  | vote _ r' hm => exact (h.of_marks hm).persist
  | sync _ m hne =>
    refine (h.forward (s := (a.raft.appendLogs m.entries).refreshLast) rfl rfl rfl rfl
      (Int.le_refl _) ?_).persist
    have hw : a.raft.lastLogIndex = a.raft.baseIndex + a.raft.logs.length - 1 := h.whole
    show a.raft.lastCommitIndex ≤ a.raft.baseIndex + (a.raft.logs ++ m.entries).length - 1
    rw [List.length_append]
    omega
  | follow _ m hi hlt =>
    refine h.forward (h.whole.of_eq rfl rfl rfl) rfl rfl rfl ?_ (Int.min_le_right _ _)
    show a.raft.lastCommitIndex ≤ min m.leaderCommit a.raft.lastLogIndex
    omega
  | reject _ m t hi hl hm ht hle =>
    subst hi
    have hout := hk.mismatch hle hl
    rw [← baseIndex_of_marks hm, ← lastLogIndex_of_marks hm] at hout
    show InReach (a.raft.truncateAfter m.prevLogIndex) _
    rw [Raft.truncateAfter, if_pos hout]
    exact h
  | write m text =>
    refine (h.forward (s := (r.appendLogs [r.entryOf m text]).advanceLast) (h.whole.write _)
      rfl rfl rfl (Int.le_refl _) ?_).persist (d := (r.appendLogs [r.entryOf m text]).persistData)
    have hle : r.lastCommitIndex ≤ r.lastLogIndex := hlast
    show r.lastCommitIndex ≤ r.lastLogIndex + 1
    omega
  | confirm m hi hl ht hs hm =>
    subst hi
    obtain ⟨hle, hle'⟩ := hk.confirm hl ht hs hm
    exact h.forward (h.whole.of_eq rfl rfl rfl) rfl rfl rfl hle hle'
  | hand _ es hl ha =>
    refine InReach.emit ⟨h.whole.of_eq rfl rfl rfl, h.base, h.applied, h.commit, ?_⟩
    refine h.queue.cons ⟨?_, ?_⟩ ?_
    · intro k hm
      obtain rfl := Option.some.inj hm
      exact ⟨h.applied, Int.le_refl _⟩
    · intro x hx
      cases hx
    · have hfew := h.queue.few
      rw [ha] at hfew
      rw [List.countP_cons_of_pos rfl, Nat.le_zero.mp hfew]
      exact Nat.le_refl 1
  | applied m hi =>
    subst hi
    obtain ⟨⟨hle, hle'⟩, h0⟩ := hr.acknowledged
    have hd : InReach r rest := hr.drop
    show InReach _ (rest ++ [])
    rw [List.append_nil]
    exact hd.apply hle hle' h0
  | demand _ t =>
    refine InReach.emit ⟨h.whole.of_eq rfl rfl rfl, h.base, h.applied, h.commit, ?_⟩
    refine h.queue.other ⟨?_, ?_⟩ rfl
    · intro k hk
      cases hk
    · intro x hx
      obtain rfl := Option.some.inj hx
      exact Int.le_refl _
  | generated m hi hok =>
    subst hi
    have hle : m.lastAppliedIndex ≤ r.lastAppliedIndex := by
      apply (hr.queue.each _ List.mem_cons_self).2 (m.lastAppliedIndex, m.lastAppliedTerm)
      simp [RaftMessage.snapshotMark, hok]
    have ht := InReach.truncateBefore h (.inl (Int.add_le_add_right hle 1))
    exact ⟨ht.whole.of_eq rfl rfl rfl, ht.base, ht.applied, ht.commit, ht.queue⟩
  | installed m hi hok =>
    subst hi
    have ht := InReach.truncateBefore h (hk.install hok)
    exact ⟨ht.whole.of_eq rfl rfl rfl, ht.base, ht.applied, ht.commit, ht.queue⟩

theorem InReach.goes (hk : KeepsReach r i) (hr : InReach r (i.taken ++ rest)) {s : Scope}
    (hs : Goes r i s) : InReach s.raft (rest ++ pushedOf s.effects) := by
  refine hs.invariant (I := fun s => InReach s.raft (rest ++ pushedOf s.effects)) ?_
    fun _ _ hc => InReach.change hk hr hc
  show InReach r (rest ++ [])
  rw [List.append_nil]
  cases i with
  | message m => exact InReach.drop hr
  | _ => exact hr

/-- Nothing that a step looks up is missing. -/
theorem InReach.returns (hk : KeepsReach r i) (hr : InReach r (i.taken ++ rest)) :
    (r.react i).thrown = false := by
  by_contra hne
  obtain ⟨s, hs, hmiss⟩ := (react_throws (by simpa using hne)).misses
  have h := hr.goes hk hs
  have hterm : ∀ j, s.raft.getTermAt j ≠ none := by
    intro j hn
    obtain ⟨t, ht⟩ := h.whole.getTermAt j
    rw [ht] at hn
    cases hn
  cases hmiss with
  | term j hn => exact hterm j hn
  | window hn =>
    have hfound : ∀ j ∈ applyWindow s.raft.lastAppliedIndex s.raft.lastCommitIndex,
        ∃ e, s.raft.getLogAt j = some e := by
      intro j hj
      obtain ⟨k, hk⟩ := List.getElem?_of_mem hj
      obtain ⟨rfl, hlt⟩ := applyWindow_getElem? hk
      have hb := h.base
      have hc := h.commit
      exact h.whole.getLogAt (by omega) (by omega)
    obtain ⟨es, hes⟩ := mapM_eq_some hfound
    rw [hes] at hn
    cases hn
  | reject m hi hle hl hm hn =>
    subst hi
    have hout := hk.mismatch hle hl
    rw [← baseIndex_of_marks hm, ← lastLogIndex_of_marks hm] at hout
    rw [Raft.truncateAfter, if_pos hout] at hn
    exact hterm _ hn

end Step

end Raft

/-! ## Runs -/

theorem upholds_inReach : Upholds KeepsReach (fun v => InReach v.raft v.channel)
    fun _ => True where
  perm := fun _ _ h hp => h.perm hp
  permWeak := fun _ _ _ _ => trivial
  receive := fun _ _ h hm => h.quiet (quiet_of_not_isLocal hm)
  drop := fun _ _ _ h hc => InReach.drop (hc ▸ h)
  answer := fun _ _ _ _ _ h hc hm => InReach.answer (hc ▸ h) hm
  core := fun _ _ _ h hc hg ht => InReach.goes hg (hc ▸ h) (react_goes ht)
  dies := fun _ _ _ _ _ _ => trivial
  weak := fun _ _ => trivial

open Process

theorem restart_inReach (id : Int) (ids : List Int) (file : Option RaftPersistData) :
    InReach (restart id ids file) [] := by
  have hb := (restart_booked id ids file).base
  have hlast := (restart_booked id ids file).last
  obtain ⟨hc, ha⟩ := restart_marks id ids file
  exact ⟨hlast, by omega, by omega, by omega, Queues.nil⟩

/-- No handler fails on an index, in every run that keeps everything in reach: whatever
comes next, its lookups and its iterators are within the vector. -/
theorem looksWithin_of_keepsReach (id : Int) (ids : List Int) (file : Option RaftPersistData)
    (p : Process) (hr : Reaches (Obeys KeepsReach) id ids file p) (ha : p.alive = true)
    (e : Event) (hg : p.Obeys KeepsReach e) : ∀ i ∈ p.turn e, p.raft.LooksWithin i := by
  intro i hi
  have hin := (upholds_inReach.reaches (restart_inReach id ids file) hr).1 ha
  obtain ⟨rest, hp⟩ := turn_channel hi
  exact ⟨InReach.returns (hg i hi) (hin.perm hp), hin.whole.iteratorsWithin i⟩

/-- The snapshot that ends at index 3 is about to be taken over by the core. -/
theorem looksWithin_snapshot :
    ∃ p, Reaches (Obeys KeepsReach) 1 [0, 1, 2] none p ∧ p.raft.logs.length = 3 ∧
      p.raft.LooksWithin (.message
        (.generateSnapshotResponse { lastAppliedIndex := 3, lastAppliedTerm := 1 })) := by
  obtain ⟨p, hr, hp⟩ := Reaches.of_exec (Obeys KeepsReach) 1 [0, 1, 2] none
    snapshotTaken.dropLast
    (fun p => decide (p.alive = true ∧ p.raft.logs.length = 3 ∧ p.Obeys KeepsReach .handle ∧
      p.turn .handle = some (.message (.generateSnapshotResponse
        { lastAppliedIndex := 3, lastAppliedTerm := 1 })))) (by decide +kernel)
  obtain ⟨ha, hl, hg, ht⟩ := of_decide_eq_true hp
  exact ⟨p, hr, hl, looksWithin_of_keepsReach 1 [0, 1, 2] none p hr ha .handle hg _ ht⟩

end WWRaftKV
