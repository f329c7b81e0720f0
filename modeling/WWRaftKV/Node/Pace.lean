/-
Entries that are committed while the clerk applies others.

`_ApplyCommitLogs` returns at once while a request is outstanding, and the handler of the
acknowledgement does not call it again.  So the applied index catches up with the commit
index as long as the commit index stays where it is until the acknowledgement
(`caughtUp_of_commitsIdle`).  That is enough but not needed: what counts for one
acknowledgement is where the commit index is when it is handled (`caughtUp_applied_iff`).
-/
import WWRaftKV.Core.Emit
import WWRaftKV.Core.Follow
import WWRaftKV.Node.HandOver

namespace WWRaftKV

open Command RaftM

namespace Raft

/-- With no request outstanding, everything committed has been applied. -/
def CaughtUp (r : Raft) : Prop := r.isApplying = false → r.lastAppliedIndex = r.lastCommitIndex

/-- What the step assigns to the commit index. -/
def commitsTo (r : Raft) : Input → Option Int
  | .message (.appendEntriesRequest m) =>
    if r.Accepts m ∧ m.leaderCommit > r.lastCommitIndex then
      some (min m.leaderCommit (r.lastWith m.entries))
    else none
  | .message (.appendEntriesResponse m) =>
    if (r.findPeer m.fromId).isSome ∧ r.Confirms m then some (r.progress m).majorityMatch
    else none
  | _ => none

/-- The commit index does not move while the clerk applies entries. -/
def CommitsIdle (r : Raft) (i : Input) : Prop :=
  r.isApplying = true → ∀ k ∈ r.commitsTo i, k = r.lastCommitIndex

instance (r : Raft) (i : Input) : Decidable (r.CommitsIdle i) := by
  unfold CommitsIdle
  infer_instance

variable {r : Raft} {i : Input}

/-! ## A step that assigns the commit index calls the clerk -/

theorem triple_applying {P E : Scope → Prop} (hE : ∀ s, E s) :
    Triple P applyCommitLogs (fun _ s => s.raft.isApplying = true) E := by
  refine triple_fields fun x => Triple.ite (fun ha => ?_) fun _ => ?_
  · refine Triple.pure ?_
    rintro s ⟨_, rfl⟩
    exact ha
  · refine Triple.bind (Q := fun _ s => s.raft.isApplying = true)
      (triple_assign fun _ _ => rfl) fun _ => ?_
    refine Triple.bind (triple_orThrow (fun _ _ _ hs => hs) fun _ s _ => hE s) fun es => ?_
    exact triple_push fun s hs => hs

/-- The two states differ in the mark of a snapshot in progress at most. -/
def SameButSnapshoting (s s' : Scope) : Prop :=
  s'.raft.setIsSnapshoting true = s.raft.setIsSnapshoting true

theorem sameButSnapshoting_checkIfNeedSnapshot :
    Frame SameButSnapshoting checkIfNeedSnapshot := by
  have hr : ∀ s, SameButSnapshoting s s := fun _ => rfl
  have ht : ∀ a b c, SameButSnapshoting a b → SameButSnapshoting b c → SameButSnapshoting a c :=
    fun _ _ _ h g => g.trans h
  refine Frame.bind ht (Frame.fields hr) fun x => Frame.ite (Frame.pure hr _) ?_
  refine Frame.bind ht (fun _ => rfl) fun _ => Frame.ite ?_ fun _ => rfl
  refine Frame.bind ht (Frame.fields hr) fun y => ?_
  exact Frame.bind ht (Frame.orThrow hr _) fun _ => fun _ => rfl

theorem follow_applying {m : RaftAppendEntriesRequestMessage} (ha : r.Accepts m)
    (hc : m.leaderCommit > r.lastCommitIndex) :
    Triple (fun s => s = r.start) (handleAppendEntriesRequest m)
      (fun _ s => s.raft.isApplying = true) fun _ => True := by
  refine triple_accepted_of (Q := fun s => s.isApplying = true) ha ?_
  refine triple_fields fun x => Triple.ite (fun _ => ?_) fun hn => ?_
  · exact Triple.bind (Q := fun _ _ => True) (triple_assign fun _ _ => trivial) fun _ =>
      triple_applying fun _ => trivial
  · rintro s ⟨hs, rfl⟩
    exact absurd (hs.commit ▸ hc) hn

theorem triple_fields_start {α : Type} {f : Raft → RaftM α} {Q : α → Scope → Prop}
    {E : Scope → Prop} (h : Triple (fun s => s = r.start) (f r) Q E) :
    Triple (fun s => s = r.start) (fields >>= f) Q E := by
  rintro s rfl
  exact h r.start rfl

theorem confirm_applying {m : RaftAppendEntriesResponseMessage} {p : RaftPeer}
    (hp : r.findPeer m.fromId = some p) (hc : r.Confirms m) :
    Triple (fun s => s = r.start) (handleAppendEntriesResponse m)
      (fun _ s => s.raft.isApplying = true) fun _ => True := by
  apply triple_fields_start
  rw [if_neg (not_not.mpr hc.role), if_neg (Nat.not_lt.mpr hc.term), hp]
  refine Triple.ite (fun _ => ?_) fun hs => absurd hc.success hs
  refine Triple.bind (Q := fun _ s => s = (r.progress m).start) (triple_assign ?_) fun _ => ?_
  · rintro s rfl
    rfl
  apply triple_fields_start
  rw [hc.majority]
  refine Triple.bind (Q := fun t _ => t = r.term) (triple_orThrow ?_ fun _ _ _ => trivial) ?_
  · rintro t s ht _
    exact (Option.some.inj ht).symm
  intro t
  refine Triple.ite (fun _ => ?_) fun hne => ?_
  · refine Triple.bind (Q := fun _ _ => True) (triple_assign fun _ _ => trivial) fun _ => ?_
    refine Triple.bind (triple_applying fun _ => trivial) fun _ => ?_
    have hframe := triple_of_frame sameButSnapshoting_checkIfNeedSnapshot
      (P := fun s => s.raft.isApplying = true) (Q := fun s => s.raft.isApplying = true)
      fun _ _ hs h => (congrArg isApplying h).trans hs
    exact hframe.conseq (fun _ h => h) (fun _ _ h => h) fun _ _ => trivial
  · rintro s ht
    exact absurd ht hne

/-- A step that returns has a request outstanding when it has assigned the commit index. -/
theorem react_applying {k : Int} (hk : k ∈ r.commitsTo i) (ht : (r.react i).thrown = false) :
    (r.react i).raft.isApplying = true := by
  have hrun : Triple (fun s => s = r.start) (command i) (fun _ s => s.raft.isApplying = true)
      fun _ => True := by
    cases i with
    | message m =>
      cases m with
      | appendEntriesRequest m =>
        simp only [commitsTo, Option.mem_def, Option.ite_none_right_eq_some] at hk
        exact follow_applying hk.1.1 hk.1.2
      | appendEntriesResponse m =>
        simp only [commitsTo, Option.mem_def, Option.ite_none_right_eq_some] at hk
        obtain ⟨p, hp⟩ := Option.isSome_iff_exists.mp hk.1.1
        exact confirm_applying hp hk.1.2
      | _ => cases hk
    | _ => cases hk
  have h := hrun r.start rfl
  rw [react_eq] at ht ⊢
  cases hc : (command i).run r.start with
  | ok a s =>
    rw [hc] at h
    show (endScope ((command i).run r.start)).raft.isApplying = true
    rw [hc]
    exact h
  | error e s =>
    have ht' : isThrow ((command i).run r.start) = false := ht
    rw [hc] at ht'
    cases ht'

/-- An answer of a node that is not a peer changes no index and reaches no clerk. -/
theorem react_stranger {m : RaftAppendEntriesResponseMessage} (hp : r.findPeer m.fromId = none) :
    (r.react (.message (.appendEntriesResponse m))).raft.marks = r.marks ∧
      (r.react (.message (.appendEntriesResponse m))).pushed = [] := by
  apply react_of_triple (P := fun s => s.raft.marks = r.marks ∧ pushedOf s.effects = [])
  have hpure : Triple (fun s => s = r.start) (pure () : RaftM Unit)
      (fun _ s => s.raft.marks = r.marks ∧ pushedOf s.effects = [])
      fun s => s.raft.marks = r.marks ∧ pushedOf s.effects = [] := by
    refine Triple.pure ?_
    rintro s rfl
    exact ⟨rfl, rfl⟩
  apply triple_fields_start
  refine Triple.ite (fun _ => hpure) fun _ => Triple.ite (fun _ => ?_) fun _ => ?_
  · rintro s rfl
    exact ⟨rfl, rfl⟩
  · rw [hp]
    exact hpure

end Raft

open Raft

/-! ## The commit index is the one the clerk works towards -/

/-- At most one request is outstanding, and it ends at the commit index. -/
def Awaits (r : Raft) (ch : List RaftMessage) : Prop :=
  Queues (fun m => ∀ k ∈ m.applyMark, k = r.lastCommitIndex) (·.aboutApply)
    (if r.isApplying then 1 else 0) ch

section Awaits

variable {r s : Raft} {i : Input} {ch rest : List RaftMessage} {m x : RaftMessage} {b : Bool}

theorem Awaits.same (h : Awaits r ch) (ha : s.isApplying = r.isApplying)
    (hc : s.lastCommitIndex = r.lastCommitIndex) : Awaits s ch := by
  unfold Awaits
  rw [ha, hc]
  exact h

theorem Awaits.of_marks (h : Awaits r ch) (hm : s.marks = r.marks) : Awaits s ch :=
  h.same (isApplying_of_marks hm) (lastCommitIndex_of_marks hm)

theorem Awaits.unmarked (h : Awaits r ch) (hm : m.applyMark = none)
    (ha : m.aboutApply = false) : Awaits r (m :: ch) := by
  refine h.other (fun k hk => ?_) ha
  rw [hm] at hk
  cases hk

theorem Awaits.quiet (h : Awaits r ch) (hm : m.Quiet) : Awaits r (m :: ch) :=
  h.unmarked hm.applyMark hm.aboutApply

theorem Awaits.answer (h : Awaits r (x :: ch)) (hm : clerkAnswer b x = some m) :
    Awaits r (m :: ch) := by
  obtain ⟨hmark, habout⟩ := clerkAnswer_apply hm
  refine h.swap (fun k hk => ?_) habout
  rw [hmark] at hk
  exact h.each x List.mem_cons_self k hk

theorem Awaits.emit {es : List Effect} (h : Awaits r (m :: (rest ++ pushedOf es))) :
    Awaits r (rest ++ pushedOf (es ++ [.push m])) := h.perm (emit_perm m rest es)

theorem Awaits.persist {es : List Effect} {d : RaftPersistData}
    (h : Awaits r (rest ++ pushedOf es)) :
    Awaits r (rest ++ pushedOf (es ++ [.persist d])) := by
  rw [pushedOf_save]
  exact h

/-- With nothing outstanding no message names an index. -/
theorem Awaits.countP_eq_zero (h : Awaits r ch) (ha : r.isApplying = false) :
    ch.countP (·.aboutApply) = 0 := by
  have hfew := h.few
  rw [ha] at hfew
  exact Nat.le_zero.mp hfew

theorem awaits_of_countP (h : ch.countP (·.aboutApply) = 0) : Awaits r ch where
  each := by
    intro m hm k hk
    have hnone := List.countP_eq_zero.mp h m hm
    rw [applyMark_eq_none (by simpa using hnone)] at hk
    cases hk
  few := by omega

/-- The commit index may move while nothing is outstanding. -/
theorem Awaits.commit (h : Awaits r ch) {k : Int}
    (hk : r.isApplying = true → k = r.lastCommitIndex) : Awaits (r.setLastCommitIndex k) ch := by
  cases ha : r.isApplying with
  | false => exact awaits_of_countP (h.countP_eq_zero ha)
  | true => exact h.same rfl (hk ha)

theorem Awaits.hand (h : Awaits r ch) (ha : r.isApplying = false) (es : List RaftLogEntry) :
    Awaits (r.setIsApplying true)
      (.applyCommitLogsRequest { lastCommitIndex := r.lastCommitIndex, entries := es } :: ch) := by
  have h0 := h.countP_eq_zero ha
  refine Queues.cons h (fun k hk => ?_) ?_
  · exact (Option.some.inj hk).symm
  · rw [List.countP_cons, h0]
    exact Nat.le_refl 1

/-- The acknowledgement names the commit index and leaves nothing outstanding. -/
theorem Awaits.acknowledged {q : ApplyCommitLogsResponseMessage}
    (h : Awaits r (.applyCommitLogsResponse q :: rest)) :
    q.lastCommitIndex = r.lastCommitIndex ∧ rest.countP (·.aboutApply) = 0 := by
  have hone : (if r.isApplying then 1 else 0) ≤ 1 := by split <;> omega
  exact ⟨h.each _ List.mem_cons_self _ rfl,
    Queues.countP_eq_zero (h.mono (fun _ _ hm => hm) hone) rfl⟩

theorem sync_isApplying (r : Raft) (es : List RaftLogEntry) :
    (r.sync es).isApplying = r.isApplying := by
  unfold sync
  split <;> rfl

/-- What an accepted request assigns to the commit index. -/
theorem follow_commitsTo {q : RaftAppendEntriesRequestMessage} {c : Scope} (ha : r.Accepts q)
    (hk : c.raft.marks = (r.sync q.entries).marks)
    (hc : q.leaderCommit > c.raft.lastCommitIndex) :
    min q.leaderCommit c.raft.lastLogIndex ∈ r.commitsTo (.message (.appendEntriesRequest q)) := by
  have hcommit := lastCommitIndex_of_marks hk
  rw [sync_lastCommitIndex] at hcommit
  rw [hcommit] at hc
  rw [commitsTo, if_pos ⟨ha, hc⟩, lastLogIndex_of_marks hk, sync_lastLogIndex]
  rfl

theorem Awaits.change (hg : r.CommitsIdle i)
    (hp : ∀ m, i = .message (.appendEntriesResponse m) → (r.findPeer m.fromId).isSome)
    (hr : Awaits r (i.taken ++ rest)) {c d : Scope} (hc : Change r i c d)
    (h : Awaits c.raft (rest ++ pushedOf c.effects)) :
    Awaits d.raft (rest ++ pushedOf d.effects) := by
  cases hc with
  | emit _ m hm => exact (h.quiet hm).emit
  | turn _ r' hk => exact h.of_marks hk
  | vote _ r' hk => exact (h.of_marks hk).persist
  | sync _ m hne => exact (h.same (s := (c.raft.appendLogs m.entries).refreshLast) rfl rfl).persist
  | follow _ m hi hlt ha hk =>
    subst hi
    refine h.commit fun happ => ?_
    rw [isApplying_of_marks hk, sync_isApplying] at happ
    rw [lastCommitIndex_of_marks hk, sync_lastCommitIndex]
    exact hg happ _ (follow_commitsTo ha hk hlt)
  | reject _ m t =>
    exact h.same (truncateAfter_isApplying _ _) (truncateAfter_lastCommitIndex _ _)
  | write m text =>
    exact (h.same (s := (r.appendLogs [r.entryOf m text]).advanceLast) rfl rfl).persist
      (d := (r.appendLogs [r.entryOf m text]).persistData)
  | confirm m hi hl ht hs hk =>
    subst hi
    refine h.commit (r := r.progress m) fun happ => hg happ _ ?_
    rw [commitsTo, if_pos ⟨hp m rfl, hl, ht, hs, hk⟩]
    rfl
  | hand _ es hl ha hes => exact (h.hand ha es).emit
  | applied m hi =>
    subst hi
    exact awaits_of_countP (hr.acknowledged.2 ▸ by simp [start])
  | demand _ t =>
    exact ((h.same (s := c.raft.setIsSnapshoting true) rfl rfl).unmarked
      (m := .generateSnapshotRequest
        { lastAppliedIndex := c.raft.lastAppliedIndex, lastAppliedTerm := t }) rfl rfl).emit
  | generated m =>
    exact h.same (truncateBefore_isApplying _ r) (truncateBefore_lastCommitIndex _ r)
  | installed m =>
    exact h.same (truncateBefore_isApplying _ r) (truncateBefore_lastCommitIndex _ r)

end Awaits

/-! ## The applied index -/

section Paced

variable {r : Raft} {i : Input} {rest : List RaftMessage}

theorem Raft.CaughtUp.same {s : Raft} (h : r.CaughtUp) (hf : s.isApplying = r.isApplying)
    (ha : s.lastAppliedIndex = r.lastAppliedIndex)
    (hc : s.lastCommitIndex = r.lastCommitIndex) : s.CaughtUp := by
  unfold CaughtUp
  rw [hf, ha, hc]
  exact h

theorem Raft.CaughtUp.of_marks {s : Raft} (h : r.CaughtUp) (hm : s.marks = r.marks) : s.CaughtUp :=
  h.same (isApplying_of_marks hm) (lastAppliedIndex_of_marks hm) (lastCommitIndex_of_marks hm)

/-- A change within a step that leaves the commit index alone. -/
theorem Raft.CaughtUp.change (hn : r.commitsTo i = none)
    (hp : ∀ m, i = .message (.appendEntriesResponse m) → (r.findPeer m.fromId).isSome)
    (hr : Awaits r (i.taken ++ rest)) {c d : Scope} (hc : Change r i c d)
    (h : c.raft.CaughtUp) : d.raft.CaughtUp := by
  cases hc with
  | turn _ r' hk => exact h.of_marks hk
  | vote _ r' hk => exact h.of_marks hk
  | follow _ m hi hlt ha hk =>
    subst hi
    have hmem := follow_commitsTo ha hk hlt
    rw [hn] at hmem
    cases hmem
  | reject _ m t =>
    exact h.same (truncateAfter_isApplying _ _) (truncateAfter_lastAppliedIndex _ _)
      (truncateAfter_lastCommitIndex _ _)
  | confirm m hi hl ht hs hk =>
    subst hi
    rw [commitsTo, if_pos ⟨hp m rfl, hl, ht, hs, hk⟩] at hn
    cases hn
  | hand _ es => exact fun hf => nomatch hf
  | applied m hi =>
    subst hi
    exact fun _ => hr.acknowledged.1
  | generated m =>
    exact h.same (truncateBefore_isApplying _ r) (truncateBefore_lastAppliedIndex _ r)
      (truncateBefore_lastCommitIndex _ r)
  | installed m =>
    exact h.same (truncateBefore_isApplying _ r) (truncateBefore_lastAppliedIndex _ r)
      (truncateBefore_lastCommitIndex _ r)
  | _ => exact h

/-- The pace of a live process. -/
structure Paced (r : Raft) (ch : List RaftMessage) : Prop where
  awaits : Awaits r ch
  caughtUp : r.CaughtUp

/-- A step that returns keeps the pace. -/
theorem Paced.react (h : Paced r (i.taken ++ rest)) (hg : r.CommitsIdle i)
    (ht : (r.react i).thrown = false) : Paced (r.react i).raft (rest ++ (r.react i).pushed) := by
  have hrest : Awaits r rest := by
    cases i with
    | message m => exact Queues.drop h.awaits
    | _ => exact h.awaits
  by_cases hp : ∀ m, i = .message (.appendEntriesResponse m) → (r.findPeer m.fromId).isSome
  · constructor
    · refine (react_goes ht).invariant (I := fun s => Awaits s.raft (rest ++ pushedOf s.effects))
        ?_ fun _ _ hc => Awaits.change hg hp h.awaits hc
      rw [show pushedOf r.start.effects = [] from rfl, List.append_nil]
      exact hrest
    · cases hn : r.commitsTo i with
      | some k =>
        intro hf
        rw [react_applying hn ht] at hf
        cases hf
      | none =>
        exact (react_goes ht).invariant (I := fun s => s.raft.CaughtUp) h.caughtUp
          fun _ _ hc => Raft.CaughtUp.change hn hp h.awaits hc
  · push Not at hp
    obtain ⟨m, rfl, hnone⟩ := hp
    obtain ⟨hmarks, hpushed⟩ := react_stranger (m := m) (by simpa using hnone)
    rw [hpushed, List.append_nil]
    exact ⟨hrest.of_marks hmarks, h.caughtUp.of_marks hmarks⟩

/-- An acknowledgement catches up exactly when the commit index is still the one that the
request has named. -/
theorem caughtUp_applied_iff (r : Raft) (m : ApplyCommitLogsResponseMessage) :
    (r.react (.message (.applyCommitLogsResponse m))).raft.CaughtUp ↔
      m.lastCommitIndex = r.lastCommitIndex := by
  have hframe := sameButSnapshoting_checkIfNeedSnapshot
    { raft := (r.setLastAppliedIndex m.lastCommitIndex).setIsApplying false, effects := [] }
  have hend : ((r.react (.message (.applyCommitLogsResponse m))).raft).setIsSnapshoting true =
      ((r.setLastAppliedIndex m.lastCommitIndex).setIsApplying false).setIsSnapshoting true := by
    rw [react_eq]
    exact hframe
  have hf : (r.react (.message (.applyCommitLogsResponse m))).raft.isApplying = false :=
    congrArg isApplying hend
  have ha : (r.react (.message (.applyCommitLogsResponse m))).raft.lastAppliedIndex =
      m.lastCommitIndex := congrArg lastAppliedIndex hend
  have hc : (r.react (.message (.applyCommitLogsResponse m))).raft.lastCommitIndex =
      r.lastCommitIndex := by
    have hcommit := congrArg lastCommitIndex hend
    exact hcommit
  unfold CaughtUp
  rw [ha, hc]
  exact ⟨fun h => h hf, fun h _ => h⟩

end Paced

/-! ## Runs -/

theorem upholds_paced : Upholds Raft.CommitsIdle (fun v => Paced v.raft v.channel)
    fun _ => True where
  perm := fun _ _ h hp => ⟨h.awaits.perm hp, h.caughtUp⟩
  permWeak := fun _ _ _ _ => trivial
  receive := fun _ _ h hm => ⟨h.awaits.quiet (quiet_of_not_isLocal hm), h.caughtUp⟩
  drop := fun _ _ _ h hc => ⟨Queues.drop (hc ▸ h.awaits), h.caughtUp⟩
  answer := fun _ _ _ _ _ h hc hm => ⟨Awaits.answer (hc ▸ h.awaits) hm, h.caughtUp⟩
  core := fun _ _ _ h hc hg ht => Paced.react (hc ▸ h) hg ht
  dies := fun _ _ _ _ _ _ => trivial
  weak := fun _ _ => trivial

open Process

/-- No committed entry is left behind, in every state of a live node that has been reached
by steps that leave the commit index alone while the clerk applies entries. -/
theorem caughtUp_of_commitsIdle (id : Int) (ids : List Int) (file : Option RaftPersistData)
    (p : Process) (hr : Reaches (Obeys Raft.CommitsIdle) id ids file p) (ha : p.alive = true) :
    p.raft.CaughtUp := by
  obtain ⟨hc, hap⟩ := restart_marks id ids file
  exact ((upholds_paced.reaches ⟨Queues.nil, fun _ => hap.trans hc.symm⟩ hr).1 ha).caughtUp

theorem caughtUp_three :
    ∃ p, Reaches (Obeys Raft.CommitsIdle) 1 [0, 1, 2] none p ∧ p.raft.lastCommitIndex = 3 ∧
      p.raft.isApplying = false ∧ p.raft.CaughtUp := by
  obtain ⟨p, hr, hp⟩ := Reaches.of_exec (Obeys Raft.CommitsIdle) 1 [0, 1, 2] none snapshotTaken
    (fun p => decide (p.alive = true ∧ p.raft.lastCommitIndex = 3 ∧ p.raft.isApplying = false))
    (by decide +kernel)
  obtain ⟨ha, hc, hf⟩ := of_decide_eq_true hp
  exact ⟨p, hr, hc, hf, caughtUp_of_commitsIdle 1 [0, 1, 2] none p hr ha⟩

/-- A second entry is committed before the clerk has applied the first one. -/
def commitsOvertake : List Event :=
  [.request 0 (.appendEntriesRequest
      { term := 1, fromId := 0, prevLogIndex := 0, prevLogTerm := 0, leaderCommit := 1,
        entries := [{ term := 1 }, { term := 1 }] }),
    .handle,
    .request 0 (.appendEntriesRequest
      { term := 1, fromId := 0, prevLogIndex := 2, prevLogTerm := 1, leaderCommit := 2 }),
    .handle, .clerk true, .handle]

theorem entry_left_behind :
    ¬ ∀ (id : Int) (ids : List Int) (file : Option RaftPersistData) (p : Process),
      Reaches (Obeys anyInput) id ids file p → p.alive = true → p.raft.CaughtUp := by
  intro h
  obtain ⟨p, hr, hp⟩ := Reaches.of_exec (Obeys anyInput) 1 [0, 1, 2] none commitsOvertake
    (fun p => decide (p.alive = true ∧ p.raft.isApplying = false ∧
      p.raft.lastAppliedIndex ≠ p.raft.lastCommitIndex)) (by decide +kernel)
  obtain ⟨ha, hf, hne⟩ := of_decide_eq_true hp
  exact hne (h 1 [0, 1, 2] none p hr ha hf)

end WWRaftKV
