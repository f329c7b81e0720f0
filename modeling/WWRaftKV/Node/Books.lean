/-
The books of a node: what its indices say about its vector.

`Books` holds in every run in which an installed snapshot ends at the node's own snapshot
point.  `InOrder` puts the four indices in order, in every run in which in addition no
answer moves a leader's commit index back.
-/
import WWRaftKV.Core.Ballot
import WWRaftKV.Core.Change
import WWRaftKV.Node.View

namespace WWRaftKV

open Raft

/-! ## Messages about indices -/

/-- The commit index that the clerk has been told of, or acknowledges. -/
def RaftMessage.applyMark : RaftMessage → Option Int
  | .applyCommitLogsRequest m => some m.lastCommitIndex
  | .applyCommitLogsResponse m => some m.lastCommitIndex
  | _ => none

/-- The point of a snapshot that is to be taken or has been taken. -/
def RaftMessage.snapshotMark : RaftMessage → Option (Int × Nat)
  | .generateSnapshotRequest m => some (m.lastAppliedIndex, m.lastAppliedTerm)
  | .generateSnapshotResponse m =>
    if m.lastAppliedIndex = -1 ∧ m.lastAppliedTerm = 0 then none
    else some (m.lastAppliedIndex, m.lastAppliedTerm)
  | _ => none

/-- The request for a snapshot and its answer, a failure included. -/
def RaftMessage.aboutSnapshot : RaftMessage → Bool
  | .generateSnapshotRequest _ => true
  | .generateSnapshotResponse _ => true
  | _ => false

def RaftMessage.aboutApply : RaftMessage → Bool
  | .applyCommitLogsRequest _ => true
  | .applyCommitLogsResponse _ => true
  | _ => false

theorem RaftMessage.Quiet.applyMark {m : RaftMessage} (h : m.Quiet) : m.applyMark = none := by
  cases m <;> first | rfl | exact absurd h id

theorem RaftMessage.Quiet.snapshotMark {m : RaftMessage} (h : m.Quiet) :
    m.snapshotMark = none := by
  cases m <;> first | rfl | exact absurd h id

theorem RaftMessage.Quiet.aboutApply {m : RaftMessage} (h : m.Quiet) :
    m.aboutApply = false := by
  cases m <;> first | rfl | exact absurd h id

theorem RaftMessage.Quiet.aboutSnapshot {m : RaftMessage} (h : m.Quiet) :
    m.aboutSnapshot = false := by
  cases m <;> first | rfl | exact absurd h id

theorem snapshotMark_eq_none {m : RaftMessage} (h : m.aboutSnapshot = false) :
    m.snapshotMark = none := by
  cases m with
  | generateSnapshotRequest m => simp [RaftMessage.aboutSnapshot] at h
  | generateSnapshotResponse m => simp [RaftMessage.aboutSnapshot] at h
  | _ => rfl

theorem applyMark_eq_none {m : RaftMessage} (h : m.aboutApply = false) :
    m.applyMark = none := by
  cases m with
  | applyCommitLogsRequest m => simp [RaftMessage.aboutApply] at h
  | applyCommitLogsResponse m => simp [RaftMessage.aboutApply] at h
  | _ => rfl

theorem quiet_of_not_isLocal {m : RaftMessage} (h : m.isLocal = false) : m.Quiet := by
  cases m <;> trivial

namespace Raft

/-! ## The books -/

/-- The fields that describe the vector. -/
structure Booked (r : Raft) : Prop where
  base : r.baseIndex = r.lastIncludedIndex + 1
  last : r.lastLogIndex = r.baseIndex + r.logs.length - 1
  lastTerm : r.lastLogTerm = (r.logs.getLast?.map (·.term)).getD r.lastIncludedTerm

/-- The log bookkeeping of a node. -/
structure LogBookkeeping (r : Raft) : Prop extends Booked r where
  included : r.lastIncludedIndex ≤ r.lastAppliedIndex
  applied : r.lastAppliedIndex ≤ r.lastCommitIndex
  commit : r.lastCommitIndex ≤ r.lastLogIndex

/-- The vector has an entry of term `t` at index `a`. -/
def Point (r : Raft) (a : Int) (t : Nat) : Prop :=
  r.lastIncludedIndex < a ∧ a ≤ r.lastLogIndex ∧
    ∃ e, r.logs[(a - r.baseIndex).toNat]? = some e ∧ e.term = t

/-- What the indices of a node and the messages between it and its clerk agree on. -/
structure Books (r : Raft) (ch : List RaftMessage) : Prop extends Booked r where
  commit : r.lastCommitIndex ≤ r.lastLogIndex
  applied : r.lastAppliedIndex ≤ r.lastLogIndex
  applies : ∀ m ∈ ch, ∀ k ∈ m.applyMark, k ≤ r.lastLogIndex
  snapshots : ∀ m ∈ ch, ∀ x ∈ m.snapshotMark, r.Point x.1 x.2
  oneSnapshot : ch.countP (·.aboutSnapshot) ≤ if r.isSnapshoting then 1 else 0

section Booked

variable {r s : Raft}

theorem booked_make (id : Int) (ids : List Int) : (make id ids).Booked where
  base := rfl
  last := rfl
  lastTerm := rfl

theorem Booked.of_marks (h : r.Booked) (hm : s.marks = r.marks) : s.Booked where
  base := by
    rw [baseIndex_of_marks hm, lastIncludedIndex_of_marks hm]
    exact h.base
  last := by
    rw [lastLogIndex_of_marks hm, baseIndex_of_marks hm, logs_of_marks hm]
    exact h.last
  lastTerm := by
    rw [lastLogTerm_of_marks hm, logs_of_marks hm, lastIncludedTerm_of_marks hm]
    exact h.lastTerm

/-- The term that the node knows for an index within its vector. -/
theorem Booked.getTermAt (h : r.Booked) {i : Int} (hi : r.lastIncludedIndex < i)
    (hl : i ≤ r.lastLogIndex) :
    r.getTermAt i = r.logs[(i - r.baseIndex).toNat]?.map (·.term) := by
  have hb := h.base
  unfold Raft.getTermAt logsAt
  rw [if_neg (by omega), if_neg (by omega), if_neg (by omega)]

theorem Booked.getElem (h : r.Booked) {i : Int} (hi : r.lastIncludedIndex < i)
    (hl : i ≤ r.lastLogIndex) : ∃ e, r.logs[(i - r.baseIndex).toNat]? = some e := by
  have hb := h.base
  have hlast := h.last
  have hlt : (i - r.baseIndex).toNat < r.logs.length := by omega
  exact ⟨_, List.getElem?_eq_getElem hlt⟩

/-- A term that is not 0 belongs to the snapshot point or to an entry. -/
theorem Booked.of_getTermAt (h : r.Booked) {i : Int} {t : Nat}
    (ht : r.getTermAt i = some t) (h0 : 0 < t) :
    r.lastIncludedIndex ≤ i ∧ i ≤ r.lastLogIndex := by
  have hb := h.base
  have hlast := h.last
  unfold Raft.getTermAt at ht
  split at ht
  · omega
  split at ht
  · obtain rfl := Option.some.inj ht
    omega
  · omega

/-- Under the books a truncation after a mismatch changes nothing, unless the lookup that
follows it throws. -/
theorem Booked.truncateAfter (h : r.Booked) {i : Int} {t : Nat}
    (ht : (r.truncateAfter i).getTermAt i = some t) : r.truncateAfter i = r := by
  have hb := h.base
  by_cases hin : i < r.baseIndex ∨ i > r.lastLogIndex
  · rw [Raft.truncateAfter, if_pos hin]
  · rw [getTermAt_truncateAfter hin (by omega)] at ht
    cases ht

theorem Booked.sync (h : r.Booked) {es : List RaftLogEntry} (hne : es ≠ []) :
    (r.appendLogs es).refreshLast.Booked where
  base := h.base
  last := rfl
  lastTerm := by
    have hlast : (r.logs ++ es).getLast? = some (es.getLast hne) := by
      rw [List.getLast?_append_of_ne_nil _ hne, List.getLast?_eq_some_getLast hne]
    simp [hlast]

theorem Booked.write (h : r.Booked) {e : RaftLogEntry} (he : e.term = r.term) :
    (r.appendLogs [e]).advanceLast.Booked where
  base := h.base
  last := by
    have hlast := h.last
    simp only [advanceLast_lastLogIndex, appendLogs_lastLogIndex, advanceLast_baseIndex,
      appendLogs_baseIndex, advanceLast_logs, appendLogs_logs, List.length_append,
      List.length_singleton]
    omega
  lastTerm := by simp [he]

end Booked

section Books

variable {r s : Raft} {ch ch' : List RaftMessage} {m : RaftMessage}

theorem Point.of_marks {a : Int} {t : Nat} (h : r.Point a t) (hm : s.marks = r.marks) :
    s.Point a t := by
  unfold Point at *
  rw [lastIncludedIndex_of_marks hm, lastLogIndex_of_marks hm, baseIndex_of_marks hm,
    logs_of_marks hm]
  exact h

theorem Books.of_marks (h : Books r ch) (hm : s.marks = r.marks) : Books s ch where
  toBooked := h.toBooked.of_marks hm
  commit := by
    rw [lastCommitIndex_of_marks hm, lastLogIndex_of_marks hm]
    exact h.commit
  applied := by
    rw [lastAppliedIndex_of_marks hm, lastLogIndex_of_marks hm]
    exact h.applied
  applies := by
    rw [lastLogIndex_of_marks hm]
    exact h.applies
  snapshots := fun m hmem x hx => (h.snapshots m hmem x hx).of_marks hm
  oneSnapshot := by
    rw [isSnapshoting_of_marks hm]
    exact h.oneSnapshot

/-- What the messages between core and clerk say about the node. -/
def Vouches (r : Raft) (m : RaftMessage) : Prop :=
  (∀ k ∈ m.applyMark, k ≤ r.lastLogIndex) ∧ ∀ x ∈ m.snapshotMark, r.Point x.1 x.2

theorem Vouches.quiet (hm : m.Quiet) : r.Vouches m := by
  unfold Vouches
  rw [hm.applyMark, hm.snapshotMark]
  exact ⟨nofun, nofun⟩

theorem Books.queue (h : Books r ch) :
    Queues r.Vouches (·.aboutSnapshot) (if r.isSnapshoting then 1 else 0) ch :=
  ⟨fun m hm => ⟨h.applies m hm, h.snapshots m hm⟩, h.oneSnapshot⟩

/-- The channel may change as long as its messages vouch for the node. -/
theorem Books.requeue (h : Books r ch)
    (hq : Queues r.Vouches (·.aboutSnapshot) (if r.isSnapshoting then 1 else 0) ch') :
    Books r ch' where
  toBooked := h.toBooked
  commit := h.commit
  applied := h.applied
  applies := fun m hm => (hq.each m hm).1
  snapshots := fun m hm => (hq.each m hm).2
  oneSnapshot := hq.few

theorem Books.perm (h : Books r ch) (hp : ch.Perm ch') : Books r ch' :=
  h.requeue (h.queue.perm hp)

theorem Books.drop (h : Books r (m :: ch)) : Books r ch :=
  h.requeue h.queue.drop

/-- One more message, with what it says about the node. -/
theorem Books.cons (h : Books r ch) (ha : ∀ k ∈ m.applyMark, k ≤ r.lastLogIndex)
    (hs : ∀ x ∈ m.snapshotMark, r.Point x.1 x.2)
    (hc : (m :: ch).countP (·.aboutSnapshot) ≤ if r.isSnapshoting then 1 else 0) :
    Books r (m :: ch) :=
  h.requeue (h.queue.cons ⟨ha, hs⟩ hc)

theorem Books.quiet (h : Books r ch) (hm : m.Quiet) : Books r (m :: ch) :=
  h.requeue (h.queue.other (Vouches.quiet hm) hm.aboutSnapshot)

/-- The vector has grown at its end. -/
theorem Books.extend (h : Books r ch) {es : List RaftLogEntry} (hs : s.Booked)
    (hlogs : s.logs = r.logs ++ es) (hbase : s.baseIndex = r.baseIndex)
    (hcommit : s.lastCommitIndex = r.lastCommitIndex)
    (happlied : s.lastAppliedIndex = r.lastAppliedIndex)
    (hsnap : s.isSnapshoting = r.isSnapshoting) : Books s ch := by
  have hb := h.base
  have hb' := hs.base
  have hl := h.last
  have hl' := hs.last
  rw [hlogs, List.length_append] at hl'
  have hle : r.lastLogIndex ≤ s.lastLogIndex := by omega
  refine ⟨hs, ?_, ?_, ?_, ?_, ?_⟩
  · have hc := h.commit
    omega
  · have ha := h.applied
    omega
  · intro m hm k hk
    exact Int.le_trans (h.applies m hm k hk) hle
  · intro m hm x hx
    obtain ⟨hlt, hle', e, he, ht⟩ := h.snapshots m hm x hx
    refine ⟨by omega, by omega, e, ?_, ht⟩
    have hk := (List.getElem?_eq_some_iff.mp he).1
    rw [hlogs, hbase, List.getElem?_append_left hk]
    exact he
  · rw [hsnap]
    exact h.oneSnapshot

end Books

/-! ## One step keeps the books -/

/-- What the message handled says about the node, when `rest` stays in the channel. -/
structure Honest (r : Raft) (i : Input) (rest : List RaftMessage) : Prop where
  applied : ∀ m, i = .message (.applyCommitLogsResponse m) →
    m.lastCommitIndex ≤ r.lastLogIndex
  taken : ∀ m, i = .message (.generateSnapshotResponse m) →
    ¬ (m.lastAppliedIndex = -1 ∧ m.lastAppliedTerm = 0) →
    r.Point m.lastAppliedIndex m.lastAppliedTerm ∧ rest.countP (·.aboutSnapshot) = 0
  installed : ∀ m, i = .message (.applySnapshotResponse m) →
    ¬ (m.lastIncludedIndex = -1 ∧ m.lastIncludedTerm = 0) →
    m.lastIncludedIndex = r.lastIncludedIndex ∧
      (m.lastIncludedTerm = r.lastIncludedTerm ∨ r.logs ≠ [])
  leads : r.role = .leader → 0 < r.term

section Step

variable {r : Raft} {i : Input} {rest : List RaftMessage}

/-- A change of fields that the books do not look at, or of the commit and the applied
index within their bounds. -/
theorem Books.assign {s : Raft} (h : Books r rest) (hs : s.Booked)
    (hlogs : s.logs = r.logs) (hbase : s.baseIndex = r.baseIndex)
    (hcommit : s.lastCommitIndex ≤ s.lastLogIndex)
    (happlied : s.lastAppliedIndex ≤ s.lastLogIndex)
    (hsnap : rest.countP (·.aboutSnapshot) ≤ if s.isSnapshoting then 1 else 0) :
    Books s rest := by
  have hb := h.base
  have hb' := hs.base
  have hl := h.last
  have hl' := hs.last
  rw [hlogs] at hl'
  refine ⟨hs, hcommit, happlied, ?_, ?_, hsnap⟩
  · intro m hm k hk
    have hle := h.applies m hm k hk
    omega
  · intro m hm x hx
    obtain ⟨hlt, hle, e, he, ht⟩ := h.snapshots m hm x hx
    refine ⟨by omega, by omega, e, ?_, ht⟩
    rw [hlogs, hbase]
    exact he

theorem Books.snapshotTaken (h : Books r rest) (m : GenerateSnapshotResponseMessage)
    (hp : r.Point m.lastAppliedIndex m.lastAppliedTerm)
    (h0 : rest.countP (·.aboutSnapshot) = 0) :
    Books ((r.snapshotTaken m).setIsSnapshoting false) rest := by
  obtain ⟨hlt, hle, e, he, ht⟩ := hp
  have hb := h.base
  have hl := h.last
  have hc := h.commit
  have ha := h.applied
  have hnone : ∀ m ∈ rest, m.aboutSnapshot = false := by
    simpa using List.countP_eq_zero.mp h0
  have htrunc : r.truncateBefore (m.lastAppliedIndex + 1) = r.dropTo (m.lastAppliedIndex + 1) := by
    unfold truncateBefore
    rw [if_neg (by omega)]
  unfold Raft.snapshotTaken
  rw [htrunc]
  refine ⟨⟨rfl, ?_, ?_⟩, hc, ha, h.applies, ?_, by simp [h0]⟩
  · show r.lastLogIndex = m.lastAppliedIndex + 1 +
      ((r.logs.drop (m.lastAppliedIndex + 1 - r.baseIndex).toNat).length : Int) - 1
    rw [List.length_drop]
    omega
  · -- either an entry stays, and it is the last one still, or the point is the last entry
    show r.lastLogTerm = ((r.logs.drop (m.lastAppliedIndex + 1 - r.baseIndex).toNat).getLast?.map
      (·.term)).getD m.lastAppliedTerm
    rw [h.lastTerm]
    by_cases hend : m.lastAppliedIndex = r.lastLogIndex
    · have hdrop : r.logs.drop (m.lastAppliedIndex + 1 - r.baseIndex).toNat = [] := by
        rw [List.drop_eq_nil_iff]
        omega
      have hidx : (m.lastAppliedIndex - r.baseIndex).toNat = r.logs.length - 1 := by omega
      rw [hdrop, List.getLast?_eq_getElem?, ← hidx, he]
      exact ht
    · have hlen : (m.lastAppliedIndex + 1 - r.baseIndex).toNat < r.logs.length := by omega
      rw [List.getLast?_drop, if_neg (by omega), List.getLast?_eq_getElem?]
      have hlast : r.logs.length - 1 < r.logs.length := by omega
      rw [List.getElem?_eq_getElem hlast]
      rfl
  · intro x hx y hy
    rw [snapshotMark_eq_none (hnone x hx)] at hy
    cases hy

theorem Books.snapshotInstalled (h : Books r rest) (m : ApplySnapshotResponseMessage)
    (hi : m.lastIncludedIndex = r.lastIncludedIndex)
    (ht : m.lastIncludedTerm = r.lastIncludedTerm ∨ r.logs ≠ []) :
    Books (r.snapshotInstalled m) rest := by
  have hb := h.base
  have htrunc : r.truncateBefore m.lastIncludedIndex = r := by
    unfold truncateBefore
    rw [if_pos (by omega)]
  unfold Raft.snapshotInstalled
  rw [htrunc]
  refine h.assign ⟨?_, h.last, ?_⟩ rfl rfl h.commit h.applied h.oneSnapshot
  · show r.baseIndex = m.lastIncludedIndex + 1
    omega
  · show r.lastLogTerm = (r.logs.getLast?.map (·.term)).getD m.lastIncludedTerm
    rw [h.lastTerm]
    rcases ht with ht | hne
    · rw [ht]
    · rw [List.getLast?_eq_some_getLast hne]
      rfl

/-- A message that is pushed goes to the end of the queue. -/
theorem emit_perm (m : RaftMessage) (rest : List RaftMessage) (es : List Effect) :
    (m :: (rest ++ pushedOf es)).Perm (rest ++ pushedOf (es ++ [.push m])) := by
  rw [pushedOf_emit, ← List.append_assoc]
  exact (List.perm_append_singleton _ _).symm

theorem Books.emit {es : List Effect} {m : RaftMessage}
    (h : Books r (m :: (rest ++ pushedOf es))) :
    Books r (rest ++ pushedOf (es ++ [.push m])) :=
  h.perm (emit_perm m rest es)

theorem Books.persist {es : List Effect} {d : RaftPersistData}
    (h : Books r (rest ++ pushedOf es)) : Books r (rest ++ pushedOf (es ++ [.persist d])) := by
  rw [pushedOf_save]
  exact h

theorem Books.change (hh : r.Honest i rest) {a b : Scope} (hc : Change r i a b)
    (h : Books a.raft (rest ++ pushedOf a.effects)) :
    Books b.raft (rest ++ pushedOf b.effects) := by
  cases hc with
  | emit _ m hm => exact (h.quiet hm).emit
  | turn _ r' hk => exact h.of_marks hk
  | vote _ r' hk => exact (h.of_marks hk).persist
  | sync _ m hne =>
    exact (h.extend (h.toBooked.sync hne) rfl rfl rfl rfl rfl).persist
  | follow _ m =>
    refine h.assign ⟨h.base, h.last, h.lastTerm⟩ rfl rfl ?_ h.applied h.oneSnapshot
    exact Int.min_le_right _ _
  | reject _ m t hi hm hk ht =>
    show Books (a.raft.truncateAfter m.prevLogIndex) _
    rw [h.toBooked.truncateAfter ht]
    exact h
  | write m text =>
    exact (h.extend (h.toBooked.write rfl) rfl rfl rfl rfl rfl).persist
  | confirm m hi hr ht hs hk =>
    have hin := h.toBooked.of_getTermAt hk (hh.leads hr)
    exact h.assign ⟨h.base, h.last, h.lastTerm⟩ rfl rfl hin.2 h.applied h.oneSnapshot
  | hand _ es hl ha =>
    refine Books.emit (Books.cons ?_ ?_ ?_ ?_)
    · exact h.assign ⟨h.base, h.last, h.lastTerm⟩ rfl rfl h.commit h.applied h.oneSnapshot
    · intro k hk
      obtain rfl := Option.some.inj hk
      exact h.commit
    · exact fun x hx => nomatch hx
    · exact h.oneSnapshot
  | applied m hi =>
    refine h.assign ⟨h.base, h.last, h.lastTerm⟩ rfl rfl h.commit ?_ h.oneSnapshot
    exact hh.applied m hi
  | demand _ t hs hn ht =>
    have h0 : (rest ++ pushedOf a.effects).countP (·.aboutSnapshot) = 0 := by
      have hone := h.oneSnapshot
      rw [hs] at hone
      exact Nat.le_zero.mp hone
    refine Books.emit (Books.cons ?_ ?_ ?_ ?_)
    · refine h.assign ⟨h.base, h.last, h.lastTerm⟩ rfl rfl h.commit h.applied ?_
      rw [h0]
      exact Nat.zero_le _
    · exact fun x hx => nomatch hx
    · intro x hx
      obtain rfl := Option.some.inj hx
      have hlt : a.raft.lastIncludedIndex < a.raft.lastAppliedIndex := by
        unfold snapshotThreshold at hn
        omega
      obtain ⟨e, he⟩ := h.toBooked.getElem hlt h.applied
      rw [h.toBooked.getTermAt hlt h.applied, he] at ht
      exact ⟨hlt, h.applied, e, he, Option.some.inj ht⟩
    · rw [List.countP_cons, h0]
      exact Nat.le_refl 1
  | generated m hi hok =>
    obtain ⟨hp, h0⟩ := hh.taken m hi hok
    rw [show pushedOf r.start.effects = [] from rfl, List.append_nil] at h
    show Books _ (rest ++ [])
    rw [List.append_nil]
    exact h.snapshotTaken m hp h0
  | installed m hi hok =>
    obtain ⟨hidx, ht⟩ := hh.installed m hi hok
    exact h.snapshotInstalled m hidx ht

end Step

/-! ## The order of the indices -/

/-- The four indices in order, those that the clerk knows of included. -/
structure InOrder (r : Raft) (ch : List RaftMessage) : Prop where
  included : r.lastIncludedIndex ≤ r.lastAppliedIndex
  applied : r.lastAppliedIndex ≤ r.lastCommitIndex
  applies : ∀ m ∈ ch, ∀ k ∈ m.applyMark, r.lastAppliedIndex ≤ k ∧ k ≤ r.lastCommitIndex
  oneApply : ch.countP (·.aboutApply) ≤ if r.isApplying then 1 else 0
  snapshots : ∀ m ∈ ch, ∀ x ∈ m.snapshotMark, x.1 ≤ r.lastAppliedIndex

/-- What the message handled says about the order. -/
structure Timely (r : Raft) (i : Input) (rest : List RaftMessage) : Prop where
  applied : ∀ m, i = .message (.applyCommitLogsResponse m) →
    r.lastAppliedIndex ≤ m.lastCommitIndex ∧ m.lastCommitIndex ≤ r.lastCommitIndex ∧
      rest.countP (·.aboutApply) = 0
  taken : ∀ m, i = .message (.generateSnapshotResponse m) →
    ¬ (m.lastAppliedIndex = -1 ∧ m.lastAppliedTerm = 0) →
    m.lastAppliedIndex ≤ r.lastAppliedIndex
  confirmed : ∀ m, i = .message (.appendEntriesResponse m) → r.role = .leader →
    m.term ≤ r.term → m.success = true →
    (r.progress m).getTermAt (r.progress m).majorityMatch = some r.term →
    r.lastCommitIndex ≤ (r.progress m).majorityMatch

section InOrder

variable {r s : Raft} {i : Input} {ch ch' rest : List RaftMessage} {m : RaftMessage}

/-- What the messages between core and clerk say about the order. -/
def Ordered (r : Raft) (m : RaftMessage) : Prop :=
  (∀ k ∈ m.applyMark, r.lastAppliedIndex ≤ k ∧ k ≤ r.lastCommitIndex) ∧
    ∀ x ∈ m.snapshotMark, x.1 ≤ r.lastAppliedIndex

theorem Ordered.quiet (hm : m.Quiet) : r.Ordered m := by
  unfold Ordered
  rw [hm.applyMark, hm.snapshotMark]
  exact ⟨nofun, nofun⟩

theorem InOrder.queue (h : InOrder r ch) :
    Queues r.Ordered (·.aboutApply) (if r.isApplying then 1 else 0) ch :=
  ⟨fun m hm => ⟨h.applies m hm, h.snapshots m hm⟩, h.oneApply⟩

theorem InOrder.requeue (h : InOrder r ch)
    (hq : Queues r.Ordered (·.aboutApply) (if r.isApplying then 1 else 0) ch') :
    InOrder r ch' where
  included := h.included
  applied := h.applied
  applies := fun m hm => (hq.each m hm).1
  oneApply := hq.few
  snapshots := fun m hm => (hq.each m hm).2

theorem InOrder.perm (h : InOrder r ch) (hp : ch.Perm ch') : InOrder r ch' :=
  h.requeue (h.queue.perm hp)

theorem InOrder.drop (h : InOrder r (m :: ch)) : InOrder r ch :=
  h.requeue h.queue.drop

theorem InOrder.cons (h : InOrder r ch)
    (ha : ∀ k ∈ m.applyMark, r.lastAppliedIndex ≤ k ∧ k ≤ r.lastCommitIndex)
    (hc : (m :: ch).countP (·.aboutApply) ≤ if r.isApplying then 1 else 0)
    (hs : ∀ x ∈ m.snapshotMark, x.1 ≤ r.lastAppliedIndex) : InOrder r (m :: ch) :=
  h.requeue (h.queue.cons ⟨ha, hs⟩ hc)

theorem InOrder.quiet (h : InOrder r ch) (hm : m.Quiet) : InOrder r (m :: ch) :=
  h.requeue (h.queue.other (Ordered.quiet hm) hm.aboutApply)

/-- The indices have not moved, and the commit index not back. -/
theorem InOrder.forward (h : InOrder r ch) (hi : s.lastIncludedIndex = r.lastIncludedIndex)
    (ha : s.lastAppliedIndex = r.lastAppliedIndex)
    (hc : r.lastCommitIndex ≤ s.lastCommitIndex)
    (hf : ch.countP (·.aboutApply) ≤ if s.isApplying then 1 else 0) : InOrder s ch where
  included := by
    have hle := h.included
    omega
  applied := by
    have hle := h.applied
    omega
  applies := by
    intro m hm k hk
    have hle := h.applies m hm k hk
    omega
  oneApply := hf
  snapshots := by
    intro m hm x hx
    have hle := h.snapshots m hm x hx
    omega

theorem InOrder.of_marks (h : InOrder r ch) (hm : s.marks = r.marks) : InOrder s ch := by
  refine h.forward (lastIncludedIndex_of_marks hm) (lastAppliedIndex_of_marks hm) ?_ ?_
  · rw [lastCommitIndex_of_marks hm]
  · rw [isApplying_of_marks hm]
    exact h.oneApply

theorem InOrder.emit {es : List Effect} (h : InOrder r (m :: (rest ++ pushedOf es))) :
    InOrder r (rest ++ pushedOf (es ++ [.push m])) :=
  h.perm (emit_perm m rest es)

theorem InOrder.persist {es : List Effect} {d : RaftPersistData}
    (h : InOrder r (rest ++ pushedOf es)) : InOrder r (rest ++ pushedOf (es ++ [.persist d])) := by
  rw [pushedOf_save]
  exact h

theorem InOrder.change (hh : r.Honest i rest) (ht : r.Timely i rest) {a b : Scope}
    (hc : Change r i a b) (hb : Books a.raft (rest ++ pushedOf a.effects))
    (h : InOrder a.raft (rest ++ pushedOf a.effects)) :
    InOrder b.raft (rest ++ pushedOf b.effects) := by
  cases hc with
  | emit _ m hm => exact (h.quiet hm).emit
  | turn _ r' hk => exact h.of_marks hk
  | vote _ r' hk => exact (h.of_marks hk).persist
  | sync _ m hne =>
    exact (h.forward (s := (a.raft.appendLogs m.entries).refreshLast) rfl rfl
      (Int.le_refl _) h.oneApply).persist
  | follow _ m hi hc =>
    refine h.forward rfl rfl ?_ h.oneApply
    have hlast := hb.commit
    show a.raft.lastCommitIndex ≤ min m.leaderCommit a.raft.lastLogIndex
    omega
  | reject _ m t hi hm hk hu =>
    show InOrder (a.raft.truncateAfter m.prevLogIndex) _
    rw [hb.toBooked.truncateAfter hu]
    exact h
  | write m text =>
    exact (h.forward (s := (r.appendLogs [r.entryOf m text]).advanceLast) rfl rfl
      (Int.le_refl _) h.oneApply).persist
  | confirm m hi hr hle hs hk =>
    exact h.forward rfl rfl (ht.confirmed m hi hr hle hs hk) h.oneApply
  | hand _ es hl ha =>
    have h0 : (rest ++ pushedOf a.effects).countP (·.aboutApply) = 0 := by
      have hone := h.oneApply
      rw [ha] at hone
      exact Nat.le_zero.mp hone
    refine InOrder.emit (InOrder.cons ?_ ?_ ?_ ?_)
    · refine h.forward rfl rfl (Int.le_refl _) ?_
      rw [h0]
      exact Nat.zero_le _
    · intro k hk
      obtain rfl := Option.some.inj hk
      exact ⟨h.applied, Int.le_refl _⟩
    · rw [List.countP_cons, h0]
      exact Nat.le_refl 1
    · exact fun x hx => nomatch hx
  | applied m hi =>
    obtain ⟨hle, hle', h0⟩ := ht.applied m hi
    have hin : InOrder r (rest ++ pushedOf []) := h
    rw [pushedOf_nil, List.append_nil] at hin
    show InOrder _ (rest ++ [])
    rw [List.append_nil]
    refine ⟨Int.le_trans hin.included hle, hle', ?_, ?_, ?_⟩
    · intro x hx k hk
      have hnone := List.countP_eq_zero.mp h0 x hx
      rw [applyMark_eq_none (by simpa using hnone)] at hk
      cases hk
    · rw [h0]
      exact Nat.zero_le _
    · exact fun x hx y hy => Int.le_trans (hin.snapshots x hx y hy) hle
  | demand _ t hs =>
    refine InOrder.emit (InOrder.cons ?_ ?_ ?_ ?_)
    · exact h.forward rfl rfl (Int.le_refl _) h.oneApply
    · exact fun k hk => nomatch hk
    · exact h.oneApply
    · intro x hx
      obtain rfl := Option.some.inj hx
      exact Int.le_refl _
  | generated m hi hok =>
    have hle := ht.taken m hi hok
    have hin : InOrder r (rest ++ pushedOf []) := h
    rw [pushedOf_nil, List.append_nil] at hin
    show InOrder _ (rest ++ [])
    rw [List.append_nil]
    unfold snapshotTaken
    refine ⟨?_, ?_, ?_, ?_, ?_⟩ <;>
      simp only [setIsSnapshoting_lastIncludedIndex, setLastIncluded_lastIncludedIndex,
        setIsSnapshoting_lastAppliedIndex, setLastIncluded_lastAppliedIndex,
        setIsSnapshoting_lastCommitIndex, setLastIncluded_lastCommitIndex,
        setIsSnapshoting_isApplying, setLastIncluded_isApplying, truncateBefore_lastAppliedIndex,
        truncateBefore_lastCommitIndex, truncateBefore_isApplying]
    · exact hle
    · exact hin.applied
    · exact hin.applies
    · exact hin.oneApply
    · exact hin.snapshots
  | installed m hi hok =>
    obtain ⟨hidx, _⟩ := hh.installed m hi hok
    refine h.forward hidx (truncateBefore_lastAppliedIndex _ r)
      (Int.le_of_eq (truncateBefore_lastCommitIndex _ r).symm) ?_
    show _ ≤ if (r.truncateBefore m.lastIncludedIndex).isApplying then 1 else 0
    rw [truncateBefore_isApplying]
    exact h.oneApply

end InOrder

/-! ## Runs -/

/-- A node that stands or leads has a term of its own. -/
def Ranked (r : Raft) : Prop := r.role ≠ .follower → 0 < r.term

/-- A snapshot that has been installed ends at the node's own snapshot point; with an
empty vector its term is that of the point, too. -/
def InstallsAtPoint (r : Raft) : Input → Prop
  | .message (.applySnapshotResponse m) =>
    ¬ (m.lastIncludedIndex = -1 ∧ m.lastIncludedTerm = 0) →
      m.lastIncludedIndex = r.lastIncludedIndex ∧
        (m.lastIncludedTerm = r.lastIncludedTerm ∨ r.logs ≠ [])
  | _ => True

/-- No answer moves the commit index of a leader back. -/
def ConfirmsForward (r : Raft) : Input → Prop
  | .message (.appendEntriesResponse m) => r.role = .leader → m.term ≤ r.term →
    m.success = true → (r.progress m).getTermAt (r.progress m).majorityMatch = some r.term →
      r.lastCommitIndex ≤ (r.progress m).majorityMatch
  | _ => True

/-- The steps that keep the log bookkeeping. -/
structure KeepsBookkeeping (r : Raft) (i : Input) : Prop where
  install : InstallsAtPoint r i
  confirm : ConfirmsForward r i

section Decide

variable (r : Raft) (i : Input)

instance : Decidable (InstallsAtPoint r i) := by
  induction i using Input.casesOn with
  | message m =>
    induction m using RaftMessage.casesOn <;> unfold InstallsAtPoint <;> infer_instance
  | _ => exact .isTrue trivial

instance : Decidable (ConfirmsForward r i) := by
  induction i using Input.casesOn with
  | message m =>
    induction m using RaftMessage.casesOn <;> unfold ConfirmsForward <;> infer_instance
  | _ => exact .isTrue trivial

instance : Decidable (KeepsBookkeeping r i) :=
  decidable_of_iff (InstallsAtPoint r i ∧ ConfirmsForward r i)
    ⟨fun h => ⟨h.1, h.2⟩, fun h => ⟨h.install, h.confirm⟩⟩

end Decide

section Run

variable {r : Raft} {i : Input} {rest ch : List RaftMessage} {x m : RaftMessage} {b : Bool}

theorem Ranked.of_ballotStep {r' : Raft} {ms : List RaftMessage} (h : r.Ranked)
    (hb : BallotStep r i r' ms) : r'.Ranked := by
  intro hr
  cases hb with
  | keep hb =>
    rw [show r'.term = r.term from congrArg Ballot.term hb]
    exact h (by rwa [show r'.role = r.role from congrArg Ballot.role hb] at hr)
  | stepDown ht hb => exact absurd (congrArg Ballot.role hb) hr
  | stand hs => exact Nat.succ_pos _
  | refuse hs =>
    subst hs
    unfold observe at hr ⊢
    split at hr
    · exact absurd rfl hr
    next hle =>
      rw [if_neg hle]
      exact h hr
  | @grant m ht hv hl =>
    show 0 < (r.observe (-1) m.term).term
    have hr' : (r.observe (-1) m.term).role ≠ .follower := hr
    unfold observe at hr' ⊢
    split at hr'
    · exact absurd rfl hr'
    next hle =>
      rw [if_neg hle]
      exact h hr'
  | count hs ht hg hc => exact h hr
  | elect hs ht hg hc hb =>
    rw [show r'.term = r.term from congrArg Ballot.term hb]
    exact h (by rw [hs]; exact nofun)

theorem Ranked.react (h : r.Ranked) (i : Input) : (r.react i).raft.Ranked :=
  h.of_ballotStep (react_ballot r i)

theorem clerkAnswer_apply (h : clerkAnswer b x = some m) :
    m.applyMark = x.applyMark ∧ m.aboutApply = x.aboutApply := by
  cases x with
  | applyCommitLogsRequest q => exact Option.some.inj h ▸ ⟨rfl, rfl⟩
  | generateSnapshotRequest q => exact Option.some.inj h ▸ ⟨rfl, rfl⟩
  | applySnapshotRequest q => exact Option.some.inj h ▸ ⟨rfl, rfl⟩
  | _ => cases h

theorem clerkAnswer_aboutSnapshot (h : clerkAnswer b x = some m) :
    m.aboutSnapshot = x.aboutSnapshot := by
  cases x with
  | applyCommitLogsRequest q => exact Option.some.inj h ▸ rfl
  | generateSnapshotRequest q => exact Option.some.inj h ▸ rfl
  | applySnapshotRequest q => exact Option.some.inj h ▸ rfl
  | _ => cases h

/-- The clerk answers for the snapshot it was asked for, or for none. -/
theorem clerkAnswer_snapshotMark (h : clerkAnswer b x = some m) :
    ∀ y ∈ m.snapshotMark, y ∈ x.snapshotMark := by
  cases x with
  | generateSnapshotRequest q =>
    obtain rfl := Option.some.inj h
    cases b with
    | false => exact fun y hy => nomatch hy
    | true =>
      intro y hy
      simp only [if_true, RaftMessage.snapshotMark] at hy
      split at hy
      · cases hy
      · exact hy
  | applyCommitLogsRequest q => exact Option.some.inj h ▸ fun y hy => nomatch hy
  | applySnapshotRequest q => exact Option.some.inj h ▸ fun y hy => nomatch hy
  | _ => cases h

theorem Books.answer (h : Books r (x :: ch)) (hm : clerkAnswer b x = some m) :
    Books r (m :: ch) := by
  obtain ⟨hmark, _⟩ := clerkAnswer_apply hm
  obtain ⟨happly, hsnap⟩ := h.queue.each x List.mem_cons_self
  refine h.requeue (h.queue.swap ⟨?_, ?_⟩ (clerkAnswer_aboutSnapshot hm))
  · rw [hmark]
    exact happly
  · exact fun y hy => hsnap y (clerkAnswer_snapshotMark hm y hy)

theorem InOrder.answer (h : InOrder r (x :: ch)) (hm : clerkAnswer b x = some m) :
    InOrder r (m :: ch) := by
  obtain ⟨hmark, habout⟩ := clerkAnswer_apply hm
  obtain ⟨happly, hsnap⟩ := h.queue.each x List.mem_cons_self
  refine h.requeue (h.queue.swap ⟨?_, ?_⟩ habout)
  · rw [hmark]
    exact happly
  · exact fun y hy => hsnap y (clerkAnswer_snapshotMark hm y hy)

theorem Books.honest (h : Books r (i.taken ++ rest)) (hr : r.Ranked)
    (hi : InstallsAtPoint r i) : r.Honest i rest where
  applied := by
    rintro m rfl
    exact h.applies _ List.mem_cons_self _ rfl
  taken := by
    rintro m rfl hok
    refine ⟨h.snapshots _ List.mem_cons_self (m.lastAppliedIndex, m.lastAppliedTerm) ?_, ?_⟩
    · simp [RaftMessage.snapshotMark, hok]
    · have hone := h.oneSnapshot
      have hle : (if r.isSnapshoting then 1 else 0) ≤ 1 := by split <;> omega
      rw [Input.taken, List.singleton_append, List.countP_cons_of_pos rfl] at hone
      omega
  installed := by
    rintro m rfl
    exact hi
  leads := fun hl => hr (by rw [hl]; exact nofun)

theorem InOrder.timely (h : InOrder r (i.taken ++ rest)) (hc : ConfirmsForward r i) :
    r.Timely i rest where
  applied := by
    rintro m rfl
    obtain ⟨hle, hle'⟩ := h.applies _ List.mem_cons_self _ rfl
    refine ⟨hle, hle', ?_⟩
    have hone := h.oneApply
    have hone' : (if r.isApplying then 1 else 0) ≤ 1 := by split <;> omega
    rw [Input.taken, List.singleton_append, List.countP_cons_of_pos rfl] at hone
    omega
  taken := by
    rintro m rfl hok
    refine h.snapshots _ List.mem_cons_self (m.lastAppliedIndex, m.lastAppliedTerm) ?_
    simp [RaftMessage.snapshotMark, hok]
  confirmed := by
    rintro m rfl
    exact hc

/-- A step that returns keeps the books. -/
theorem Books.react (h : Books r (i.taken ++ rest)) (hr : r.Ranked) (hi : InstallsAtPoint r i)
    (ht : (r.react i).thrown = false) :
    Books (r.react i).raft (rest ++ (r.react i).pushed) := by
  have hh := h.honest hr hi
  have hstart : Books r.start.raft (rest ++ pushedOf r.start.effects) := by
    rw [show pushedOf r.start.effects = [] from rfl, List.append_nil]
    cases i with
    | message m => exact Books.drop h
    | _ => exact h
  exact (react_goes ht).invariant (I := fun s => Books s.raft (rest ++ pushedOf s.effects))
    hstart fun _ _ hc => Books.change hh hc

theorem InOrder.react (hb : Books r (i.taken ++ rest)) (h : InOrder r (i.taken ++ rest))
    (hr : r.Ranked) (hk : KeepsBookkeeping r i) (ht : (r.react i).thrown = false) :
    InOrder (r.react i).raft (rest ++ (r.react i).pushed) := by
  have hh := hb.honest hr hk.install
  have hstart : Books r.start.raft (rest ++ pushedOf r.start.effects) ∧
      InOrder r.start.raft (rest ++ pushedOf r.start.effects) := by
    rw [show pushedOf r.start.effects = [] from rfl, List.append_nil]
    cases i with
    | message m => exact ⟨Books.drop hb, InOrder.drop h⟩
    | _ => exact ⟨hb, h⟩
  refine ((react_goes ht).invariant (I := fun s => Books s.raft (rest ++ pushedOf s.effects) ∧
    InOrder s.raft (rest ++ pushedOf s.effects)) hstart fun _ _ hc hab => ?_).2
  exact ⟨Books.change hh hc hab.1, InOrder.change hh (h.timely hk.confirm) hc hab.1 hab.2⟩

end Run

end Raft

end WWRaftKV
