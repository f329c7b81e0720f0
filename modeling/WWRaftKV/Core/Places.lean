/-
The places of the entries in the vector.

The entry at offset `k` has the index `_Base_index + k`, whatever `_Last_log_index` says.  An
entry that is in the vector after a step was there before it, at the same index, or it has
been appended in the step.
-/
import WWRaftKV.Core.Change
import WWRaftKV.Core.Emit

namespace WWRaftKV

namespace Raft

/-- The entry that the vector holds for an index. -/
def entryAt (r : Raft) (j : Int) : Option RaftLogEntry := r.logsAt (j - r.baseIndex)

/-- The index of the next entry that is appended. -/
def nextPlace (r : Raft) : Int := r.baseIndex + r.logs.length

section EntryAt

variable {r s : Raft} {i : Input} {j : Int} {e : RaftLogEntry} {es : List RaftLogEntry}

theorem entryAt_iff :
    r.entryAt j = some e ↔ ∃ k : Nat, j = r.baseIndex + k ∧ r.logs[k]? = some e := by
  unfold entryAt logsAt
  constructor
  · intro h
    split at h
    · cases h
    · exact ⟨(j - r.baseIndex).toNat, by omega, h⟩
  · rintro ⟨k, rfl, hk⟩
    rw [if_neg (by omega)]
    rw [show (r.baseIndex + (k : Int) - r.baseIndex).toNat = k by omega]
    exact hk

theorem entryAt_congr (hl : s.logs = r.logs) (hb : s.baseIndex = r.baseIndex) (j : Int) :
    s.entryAt j = r.entryAt j := by
  unfold entryAt logsAt
  rw [hl, hb]

theorem entryAt_of_marks (h : s.marks = r.marks) (j : Int) : s.entryAt j = r.entryAt j :=
  entryAt_congr (logs_of_marks h) (baseIndex_of_marks h) j

theorem entryAt_of_getLogAt (h : r.getLogAt j = some e) : r.entryAt j = some e := by
  unfold getLogAt at h
  split at h
  · cases h
  · exact h

theorem lt_nextPlace (h : r.entryAt j = some e) : j < r.nextPlace := by
  obtain ⟨k, rfl, hk⟩ := entryAt_iff.mp h
  obtain ⟨hlt, _⟩ := List.getElem?_eq_some_iff.mp hk
  unfold nextPlace
  omega

theorem entryAt_appendLogs :
    (r.appendLogs es).entryAt j = some e ↔ r.entryAt j = some e ∨
      ∃ k : Nat, j = r.nextPlace + k ∧ es[k]? = some e := by
  rw [entryAt_iff, entryAt_iff]
  show (∃ k : Nat, j = r.baseIndex + k ∧ (r.logs ++ es)[k]? = some e) ↔ _
  unfold nextPlace
  constructor
  · rintro ⟨k, rfl, hk⟩
    by_cases hlt : k < r.logs.length
    · rw [List.getElem?_append_left hlt] at hk
      exact .inl ⟨k, rfl, hk⟩
    · rw [List.getElem?_append_right (Nat.le_of_not_lt hlt)] at hk
      exact .inr ⟨k - r.logs.length, by omega, hk⟩
  · rintro (⟨k, rfl, hk⟩ | ⟨k, rfl, hk⟩)
    · obtain ⟨hlt, _⟩ := List.getElem?_eq_some_iff.mp hk
      exact ⟨k, rfl, by rw [List.getElem?_append_left hlt, hk]⟩
    · refine ⟨r.logs.length + k, by omega, ?_⟩
      rw [List.getElem?_append_right (Nat.le_add_right _ _), Nat.add_sub_cancel_left, hk]

/-- `resize` pads with default entries where the vector is too short. -/
theorem entryAt_truncateAfter {q : Int} (h : (r.truncateAfter q).entryAt j = some e) :
    r.entryAt j = some e ∨ e = default := by
  unfold truncateAfter at h
  split at h
  · exact .inl h
  obtain ⟨k, rfl, hk⟩ := entryAt_iff.mp h
  change (resizeLogs r.logs (q - r.baseIndex).toNat)[k]? = some e at hk
  unfold resizeLogs at hk
  by_cases hlt : k < (r.logs.take (q - r.baseIndex).toNat).length
  · rw [List.getElem?_append_left hlt] at hk
    rw [List.length_take] at hlt
    rw [List.getElem?_take_of_lt (by omega)] at hk
    exact .inl (entryAt_iff.mpr ⟨k, rfl, hk⟩)
  · rw [List.getElem?_append_right (Nat.le_of_not_lt hlt)] at hk
    exact .inr (List.eq_of_mem_replicate (List.mem_of_getElem? hk))

theorem entryAt_truncateBefore {q : Int} (h : (r.truncateBefore q).entryAt j = some e) :
    r.entryAt j = some e := by
  unfold truncateBefore at h
  split at h
  · exact h
  obtain ⟨k, rfl, hk⟩ := entryAt_iff.mp h
  change (r.logs.drop (q - r.baseIndex).toNat)[k]? = some e at hk
  rw [List.getElem?_drop] at hk
  apply entryAt_iff.mpr
  refine ⟨(q - r.baseIndex).toNat + k, ?_, hk⟩
  show q + (k : Int) = _
  omega

/-- Where an entry of the vector comes from. -/
def Comes (r : Raft) (i : Input) (j : Int) (e : RaftLogEntry) : Prop :=
  r.entryAt j = some e ∨ e = default ∨
    (∃ m, i = .message (.appendEntriesRequest m) ∧ r.Accepts m ∧
      ∃ k : Nat, j = r.nextPlace + k ∧ m.entries[k]? = some e) ∨
    ∃ m, i = .message (.kvOperationRequest m) ∧ r.writeOf m = some e ∧ j = r.nextPlace

theorem Comes.change {a b : Scope} (hc : Change r i a b)
    (h : ∀ j e, a.raft.entryAt j = some e → r.Comes i j e) :
    ∀ j e, b.raft.entryAt j = some e → r.Comes i j e := by
  intro j e he
  cases hc with
  | turn _ r' hk => exact h j e ((entryAt_of_marks hk j).symm.trans he)
  | vote _ r' hk => exact h j e ((entryAt_of_marks hk j).symm.trans he)
  | sync _ m hne hi ha hk =>
    have he' : (a.raft.appendLogs m.entries).entryAt j = some e := he
    rcases entryAt_appendLogs.mp he' with he' | ⟨k, hj, he'⟩
    · exact h j e he'
    · refine .inr (.inr (.inl ⟨m, hi, ha, k, ?_, he'⟩))
      rw [hj, nextPlace, nextPlace, logs_of_marks hk, baseIndex_of_marks hk]
  | reject _ m t hi hm hk ht =>
    rcases entryAt_truncateAfter he with he | he
    · exact h j e he
    · exact .inr (.inl he)
  | write m text hi hr ht =>
    have he' : (r.appendLogs [r.entryOf m text]).entryAt j = some e := he
    rcases entryAt_appendLogs.mp he' with he' | ⟨k, hj, he'⟩
    · exact h j e he'
    · have hk : k = 0 := by
        obtain ⟨hk, _⟩ := List.getElem?_eq_some_iff.mp he'
        exact Nat.lt_one_iff.mp hk
      subst hk
      refine .inr (.inr (.inr ⟨m, hi, ?_, by omega⟩))
      rw [writeOf, if_pos hr, ht]
      exact he'
  | generated m hi hok => exact h j e (entryAt_truncateBefore he)
  | installed m hi hok => exact h j e (entryAt_truncateBefore he)
  | _ => exact h j e he

theorem react_comes (h : (r.react i).thrown = false) :
    ∀ j e, (r.react i).raft.entryAt j = some e → r.Comes i j e :=
  (react_goes h).invariant (I := fun s => ∀ j e, s.raft.entryAt j = some e → r.Comes i j e)
    (fun _ _ he => .inl he) fun _ _ hc h => Comes.change hc h

/-! ### Entries that stay -/

theorem getLogAt_iff :
    r.getLogAt j = some e ↔ r.baseIndex ≤ j ∧ j ≤ r.lastLogIndex ∧ r.entryAt j = some e := by
  unfold getLogAt
  constructor
  · intro h
    split at h
    · cases h
    · exact ⟨by omega, by omega, h⟩
  · rintro ⟨hbase, hlast, h⟩
    rw [if_neg (by omega)]
    exact h

theorem getLogAt_of_marks (h : s.marks = r.marks) (j : Int) : s.getLogAt j = r.getLogAt j := by
  unfold getLogAt logsAt
  rw [logs_of_marks h, baseIndex_of_marks h, lastLogIndex_of_marks h]

theorem getTermAt_of_getLogAt (h : r.getLogAt j = some e) (hne : j ≠ r.lastIncludedIndex) :
    r.getTermAt j = some e.term := by
  obtain ⟨hbase, hlast, hentry⟩ := getLogAt_iff.mp h
  unfold getTermAt
  rw [if_neg hne, if_neg (by omega)]
  exact congrArg (Option.map RaftLogEntry.term) hentry

theorem getLogAt_truncateBefore {q : Int} (h : r.getLogAt j = some e) (hq : q ≤ j) :
    (r.truncateBefore q).getLogAt j = some e := by
  unfold truncateBefore
  split
  · exact h
  obtain ⟨hbase, hlast, hentry⟩ := getLogAt_iff.mp h
  obtain ⟨k, rfl, hk⟩ := entryAt_iff.mp hentry
  apply getLogAt_iff.mpr
  refine ⟨hq, hlast, entryAt_iff.mpr ⟨k - (q - r.baseIndex).toNat, ?_, ?_⟩⟩
  · show _ = q + _
    omega
  · show (r.logs.drop (q - r.baseIndex).toNat)[_]? = _
    rw [List.getElem?_drop, show (q - r.baseIndex).toNat + (k - (q - r.baseIndex).toNat) = k by
      omega]
    exact hk

/-- A mismatch at the node's own snapshot point lies outside its vector. -/
def MismatchOutside (r : Raft) : Input → Prop
  | .message (.appendEntriesRequest m) => r.term ≤ m.term →
    r.logMatch m.prevLogIndex m.prevLogTerm = some false → r.lastIncludedIndex = m.prevLogIndex →
      m.prevLogIndex < r.baseIndex ∨ m.prevLogIndex > r.lastLogIndex
  | _ => True

instance (r : Raft) (i : Input) : Decidable (r.MismatchOutside i) := by
  -- by the constructors alone: no equation about `i` stands in what is evaluated
  induction i using Input.casesOn with
  | message m =>
    induction m using RaftMessage.casesOn <;> unfold MismatchOutside <;> infer_instance
  | _ => exact .isTrue trivial

/-- A truncation inside the vector throws, unless the lookup behind it finds the snapshot
point. -/
theorem truncateAfter_eq_self {q : Int} {t : Nat}
    (hout : r.lastIncludedIndex = q → q < r.baseIndex ∨ q > r.lastLogIndex)
    (ht : (r.truncateAfter q).getTermAt q = some t) : r.truncateAfter q = r := by
  by_cases hin : q < r.baseIndex ∨ q > r.lastLogIndex
  · rw [truncateAfter, if_pos hin]
  · rw [getTermAt_truncateAfter hin fun heq => hin (hout heq.symm)] at ht
    cases ht

/-- What a scope of the step has kept of the vector. -/
def Stays (r : Raft) (s : Scope) : Prop :=
  ∀ j e, s.raft.lastIncludedIndex < j → r.getLogAt j = some e → s.raft.getLogAt j = some e

theorem Stays.change {a b : Scope} (hc : Change r i a b) (hm : r.MismatchOutside i)
    (h : r.Stays a) : r.Stays b := by
  intro j e hj he
  cases hc with
  | turn _ r' hk =>
    have hj' : a.raft.lastIncludedIndex < j := by
      rw [← lastIncludedIndex_of_marks hk]
      exact hj
    exact (getLogAt_of_marks hk j).trans (h j e hj' he)
  | vote _ r' hk =>
    have hj' : a.raft.lastIncludedIndex < j := by
      rw [← lastIncludedIndex_of_marks hk]
      exact hj
    exact (getLogAt_of_marks hk j).trans (h j e hj' he)
  | sync _ m =>
    obtain ⟨hbase, _, hentry⟩ := getLogAt_iff.mp (h j e hj he)
    have hlt := lt_nextPlace hentry
    apply getLogAt_iff.mpr
    refine ⟨hbase, ?_, entryAt_appendLogs.mpr (.inl hentry)⟩
    show j ≤ a.raft.baseIndex + (a.raft.logs ++ m.entries).length - 1
    unfold nextPlace at hlt
    rw [List.length_append]
    omega
  | reject _ m t hi hl hk ht hle =>
    have hsame : a.raft.truncateAfter m.prevLogIndex = a.raft := by
      apply truncateAfter_eq_self _ ht
      rw [lastIncludedIndex_of_marks hk, baseIndex_of_marks hk, lastLogIndex_of_marks hk]
      subst hi
      exact hm hle hl
    rw [hsame] at hj ⊢
    exact h j e hj he
  | write m text =>
    obtain ⟨hbase, hlast, hentry⟩ := getLogAt_iff.mp he
    apply getLogAt_iff.mpr
    exact ⟨hbase, Int.le_add_one hlast, entryAt_appendLogs.mpr (.inl hentry)⟩
  | generated m hi hok =>
    have hj' : m.lastAppliedIndex < j := hj
    exact getLogAt_truncateBefore he (by omega)
  | installed m hi hok =>
    have hj' : m.lastIncludedIndex < j := hj
    exact getLogAt_truncateBefore he (by omega)
  | applied m hi => exact he
  | confirm m => exact he
  | _ => exact h j e hj he

/-- An entry above the snapshot point is there after the step if it was there before. -/
theorem react_stays (h : (r.react i).thrown = false) (hm : r.MismatchOutside i)
    (hj : (r.react i).raft.lastIncludedIndex < j) (he : r.getLogAt j = some e) :
    (r.react i).raft.getLogAt j = some e := by
  have hstays : r.Stays { raft := (r.react i).raft, effects := (r.react i).effects } :=
    (react_goes h).invariant (I := r.Stays) (fun _ _ _ he => he)
      fun _ _ hc h => Stays.change hc hm h
  exact hstays j e hj he

end EntryAt

end Raft

/-! ## The snapshot point -/

/-- The index and the term of a snapshot that has been taken or installed. -/
def RaftMessage.given : RaftMessage → Option (Int × Nat)
  | .generateSnapshotResponse m =>
    if m.lastAppliedIndex = -1 ∧ m.lastAppliedTerm = 0 then none
    else some (m.lastAppliedIndex, m.lastAppliedTerm)
  | .applySnapshotResponse m =>
    if m.lastIncludedIndex = -1 ∧ m.lastIncludedTerm = 0 then none
    else some (m.lastIncludedIndex, m.lastIncludedTerm)
  | _ => none

def Input.given : Input → Option (Int × Nat)
  | .message m => m.given
  | _ => none

namespace Raft

/-- The last index and term that the snapshot of the node covers. -/
def point (r : Raft) : Int × Nat := (r.lastIncludedIndex, r.lastIncludedTerm)

section Point

variable {r : Raft} {i : Input}

theorem react_generated {m : GenerateSnapshotResponseMessage}
    (hok : ¬ (m.lastAppliedIndex = -1 ∧ m.lastAppliedTerm = 0)) :
    (r.react (.message (.generateSnapshotResponse m))).raft =
      (r.snapshotTaken m).setIsSnapshoting false := by
  rw [react_eq]
  show (RaftM.endScope ((handleGenerateSnapshot m).run _)).raft = _
  unfold handleGenerateSnapshot
  rw [RaftM.ite_run, if_neg hok]
  rfl

theorem react_installed {m : ApplySnapshotResponseMessage}
    (hok : ¬ (m.lastIncludedIndex = -1 ∧ m.lastIncludedTerm = 0)) :
    (r.react (.message (.applySnapshotResponse m))).raft = r.snapshotInstalled m := by
  rw [react_eq]
  show (RaftM.endScope ((handleApplySnapshot m).run _)).raft = _
  unfold handleApplySnapshot
  rw [RaftM.ite_run, if_neg hok]
  rfl

theorem react_point_of_none (h : (r.react i).thrown = false) (hg : i.given = none) :
    (r.react i).raft.point = r.point := by
  apply (react_goes h).invariant (I := fun s => s.raft.point = r.point) rfl
  intro a b hc ha
  cases hc with
  | turn _ r' hk =>
    exact (Prod.ext (lastIncludedIndex_of_marks hk) (lastIncludedTerm_of_marks hk)).trans ha
  | vote _ r' hk =>
    exact (Prod.ext (lastIncludedIndex_of_marks hk) (lastIncludedTerm_of_marks hk)).trans ha
  | reject _ m t =>
    have hsame : (a.raft.truncateAfter m.prevLogIndex).point = a.raft.point := by
      unfold truncateAfter
      split <;> rfl
    exact hsame.trans ha
  | generated m hi hok =>
    subst hi
    rw [Input.given, RaftMessage.given, if_neg hok] at hg
    cases hg
  | installed m hi hok =>
    subst hi
    rw [Input.given, RaftMessage.given, if_neg hok] at hg
    cases hg
  | _ => exact ha

/-- The point moves to a snapshot that has been taken or installed, and only so. -/
theorem react_point (h : (r.react i).thrown = false) :
    (r.react i).raft.point = i.given.getD r.point := by
  cases hg : i.given with
  | none => exact react_point_of_none h hg
  | some l =>
    cases i with
    | message m =>
      cases m with
      | generateSnapshotResponse m =>
        rw [Input.given, RaftMessage.given] at hg
        split at hg
        · cases hg
        · rw [react_generated ‹_›]
          exact Option.some.inj hg
      | applySnapshotResponse m =>
        rw [Input.given, RaftMessage.given] at hg
        split at hg
        · cases hg
        · rw [react_installed ‹_›]
          exact Option.some.inj hg
      | _ => cases hg
    | _ => cases hg

/-- A snapshot that moves the point forward, if at all, does not end in front of the vector. -/
theorem Covered.snapshotsReach (h : r.Covered)
    (hrise : ∀ l ∈ i.given, r.lastIncludedIndex ≤ l.1) : r.SnapshotsReach i where
  taken := by
    rintro m rfl hok
    have hle := hrise (m.lastAppliedIndex, m.lastAppliedTerm)
      (by rw [Input.given, RaftMessage.given, if_neg hok]; rfl)
    exact Int.le_trans h (Int.add_le_add_right hle 1)
  received := by
    rintro m rfl hok
    have hle := hrise (m.lastIncludedIndex, m.lastIncludedTerm)
      (by rw [Input.given, RaftMessage.given, if_neg hok]; rfl)
    unfold Covered at h
    dsimp only at hle
    omega

end Point

end Raft

end WWRaftKV
