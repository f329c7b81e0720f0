/-
Compaction of the log.

`_HandleGenerateSnapshot` cuts the vector off behind the snapshot and moves the snapshot
point there.  The four lookups test an index against the point, the base and the last index
before they go to the vector, so what they answer depends on where the cut is.  Above the
new point they answer as before.
-/
import WWRaftKV.Core.Places
import WWRaftKV.Node.Bounds

namespace WWRaftKV

namespace Raft

/-- The vector begins behind the snapshot point and ends at the last index. -/
structure Trimmed (r : Raft) : Prop where
  included : 0 ≤ r.lastIncludedIndex
  base : r.baseIndex = r.lastIncludedIndex + 1
  whole : r.Whole

/-- The lookups of `s` at indices from `i` on are those of `r`. -/
structure SameFrom (i : Int) (s r : Raft) : Prop where
  termAt : ∀ j, i ≤ j → s.getTermAt j = r.getTermAt j
  matchAt : ∀ j, i ≤ j → ∀ t, s.logMatch j t = r.logMatch j t
  logAt : ∀ j, i < j → s.getLogAt j = r.getLogAt j
  logFrom : ∀ j, i < j → s.getLogFrom j = r.getLogFrom j

section Lookups

variable {r s : Raft} {i j k : Int} {t : Nat}

/-! ## The lookups and the vector -/

theorem getTermAt_included : r.getTermAt r.lastIncludedIndex = some r.lastIncludedTerm :=
  if_pos rfl

theorem getTermAt_of_ne (h : j ≠ r.lastIncludedIndex) :
    r.getTermAt j = if j < r.baseIndex ∨ j > r.lastLogIndex then some 0
      else (r.entryAt j).map (·.term) := if_neg h

/-- Behind index 0 the match test is a comparison with the term, where the index is known. -/
theorem logMatch_eq (hj : j ≠ 0) (t : Nat) :
    r.logMatch j t =
      if j ≠ r.lastIncludedIndex ∧ (j < r.baseIndex ∨ j > r.lastLogIndex) then some false
      else (r.getTermAt j).map (· == t) := by
  unfold logMatch
  rw [if_neg hj]
  by_cases hinc : j = r.lastIncludedIndex
  · rw [if_pos hinc, if_neg (fun h => h.1 hinc), hinc, getTermAt_included]
    rfl
  · rw [if_neg hinc]
    by_cases hout : j < r.baseIndex ∨ j > r.lastLogIndex
    · rw [if_pos hout, if_pos ⟨hinc, hout⟩]
    · rw [if_neg hout, if_neg (fun h => hout h.2)]

theorem getLogAt_eq :
    r.getLogAt j = if j < r.baseIndex ∨ j > r.lastLogIndex then none else r.entryAt j := rfl

/-! ## A cut -/

theorem entryAt_dropTo (hb : r.baseIndex ≤ k) (hk : k ≤ j) :
    (r.dropTo k).entryAt j = r.entryAt j := by
  unfold entryAt logsAt
  rw [dropTo_baseIndex, dropTo_logs, if_neg (by omega), if_neg (by omega), List.getElem?_drop]
  congr 1
  omega

/-- Above the cut an index is outside of the new vector when it was outside of the old. -/
theorem outside_dropTo (hb : r.baseIndex ≤ k) (hk : k ≤ j) :
    (j < (r.dropTo k).baseIndex ∨ j > (r.dropTo k).lastLogIndex) ↔
      (j < r.baseIndex ∨ j > r.lastLogIndex) := by
  rw [dropTo_baseIndex, dropTo_lastLogIndex]
  omega

theorem getLogAt_dropTo (hb : r.baseIndex ≤ k) (hk : k ≤ j) :
    (r.dropTo k).getLogAt j = r.getLogAt j := by
  rw [getLogAt_eq, getLogAt_eq, entryAt_dropTo hb hk]
  exact if_congr (outside_dropTo hb hk) rfl rfl

theorem getLogFrom_dropTo (hb : r.baseIndex ≤ k) (hk : k ≤ j) :
    (r.dropTo k).getLogFrom j = r.getLogFrom j := by
  have hdrop : (r.dropTo k).logs.drop (j - k).toNat = r.logs.drop (j - r.baseIndex).toNat := by
    rw [dropTo_logs, List.drop_drop]
    congr 1
    omega
  unfold getLogFrom
  rw [dropTo_baseIndex, dropTo_lastLogIndex, hdrop]
  exact if_congr (outside_dropTo hb hk) rfl rfl

end Lookups

/-! ## A snapshot that has been taken -/

section Taken

variable {r : Raft} {i : Int} {t : Nat}

/-- A snapshot up to the old point cuts nothing off and leaves the point where it is. -/
theorem snapshotTaken_included (h : r.Trimmed)
    (ht : r.getTermAt r.lastIncludedIndex = some t) :
    r.snapshotTaken { lastAppliedIndex := r.lastIncludedIndex, lastAppliedTerm := t } = r := by
  rw [getTermAt_included] at ht
  obtain rfl := Option.some.inj ht
  unfold snapshotTaken truncateBefore
  rw [if_pos (.inl (by rw [h.base]))]
  rfl

/-- A later snapshot cuts the vector off, at the end of it at the latest. -/
theorem snapshotTaken_above (h : r.Trimmed) (hlo : r.lastIncludedIndex < i)
    (hhi : i ≤ r.lastLogIndex) :
    r.snapshotTaken { lastAppliedIndex := i, lastAppliedTerm := t } =
      (r.dropTo (i + 1)).setLastIncluded i t := by
  have hb := h.base
  unfold snapshotTaken truncateBefore
  rw [if_neg (by show ¬ (i + 1 ≤ r.baseIndex ∨ i + 1 > r.lastLogIndex + 1); omega)]

theorem Trimmed.dropTo (h : r.Trimmed) (hlo : r.lastIncludedIndex < i)
    (hhi : i ≤ r.lastLogIndex) :
    ((r.dropTo (i + 1)).setLastIncluded i t).Trimmed where
  included := by
    have h0 := h.included
    rw [setLastIncluded_lastIncludedIndex]
    omega
  base := rfl
  whole := by
    have hb := h.base
    have hw := h.whole
    unfold Whole at *
    simp only [setLastIncluded_lastLogIndex, setLastIncluded_baseIndex, setLastIncluded_logs,
      dropTo_lastLogIndex, dropTo_baseIndex, dropTo_logs, List.length_drop]
    omega

/-- The new point answers with the term that it was given, everything above it as before. -/
theorem Trimmed.getTermAt_dropTo (h : r.Trimmed) (hlo : r.lastIncludedIndex < i)
    (ht : r.getTermAt i = some t) {j : Int} (hj : i ≤ j) :
    ((r.dropTo (i + 1)).setLastIncluded i t).getTermAt j = r.getTermAt j := by
  have hb := h.base
  by_cases hji : j = i
  · rw [hji, ht]
    exact getTermAt_included
  · have hcut : r.baseIndex ≤ i + 1 := by omega
    have hk : i + 1 ≤ j := by omega
    rw [getTermAt_of_ne (r := r) (by omega), getTermAt_of_ne hji]
    have hentry : ((r.dropTo (i + 1)).setLastIncluded i t).entryAt j = r.entryAt j :=
      (entryAt_congr rfl rfl j).trans (entryAt_dropTo hcut hk)
    rw [hentry]
    exact if_congr (outside_dropTo hcut hk) rfl rfl

theorem Trimmed.logMatch_dropTo (h : r.Trimmed) (hlo : r.lastIncludedIndex < i)
    (hhi : i ≤ r.lastLogIndex) (ht : r.getTermAt i = some t) {j : Int} (hj : i ≤ j) (u : Nat) :
    ((r.dropTo (i + 1)).setLastIncluded i t).logMatch j u = r.logMatch j u := by
  have h0 := h.included
  have hb := h.base
  rw [logMatch_eq (by omega), logMatch_eq (by omega), h.getTermAt_dropTo hlo ht hj]
  refine if_congr ?_ rfl rfl
  rw [setLastIncluded_lastIncludedIndex, setLastIncluded_baseIndex, dropTo_baseIndex,
    setLastIncluded_lastLogIndex, dropTo_lastLogIndex]
  omega

theorem Trimmed.sameFrom_dropTo (h : r.Trimmed) (hlo : r.lastIncludedIndex < i)
    (hhi : i ≤ r.lastLogIndex) (ht : r.getTermAt i = some t) :
    SameFrom i ((r.dropTo (i + 1)).setLastIncluded i t) r where
  termAt j hj := h.getTermAt_dropTo hlo ht hj
  matchAt j hj u := h.logMatch_dropTo hlo hhi ht hj u
  logAt j hj := by
    have hb := h.base
    have hcut : r.baseIndex ≤ i + 1 := by omega
    exact getLogAt_dropTo (k := i + 1) hcut hj
  logFrom j hj := by
    have hb := h.base
    have hcut : r.baseIndex ≤ i + 1 := by omega
    exact getLogFrom_dropTo (k := i + 1) hcut hj

/-- What the taken snapshot leaves behind, wherever between the point and the end it lies. -/
theorem Trimmed.snapshotTaken (h : r.Trimmed) (hlo : r.lastIncludedIndex ≤ i)
    (hhi : i ≤ r.lastLogIndex) (ht : r.getTermAt i = some t) :
    let s := r.snapshotTaken { lastAppliedIndex := i, lastAppliedTerm := t }
    s.Trimmed ∧ s.lastIncludedIndex = i ∧ SameFrom i s r := by
  intro s
  by_cases heq : i = r.lastIncludedIndex
  · subst heq
    have hs : s = r := snapshotTaken_included h ht
    rw [hs]
    exact ⟨h, rfl, ⟨fun _ _ => rfl, fun _ _ _ => rfl, fun _ _ => rfl, fun _ _ => rfl⟩⟩
  · have hlt : r.lastIncludedIndex < i := by omega
    have hs : s = (r.dropTo (i + 1)).setLastIncluded i t := snapshotTaken_above h hlt hhi
    rw [hs]
    exact ⟨h.dropTo hlt hhi, rfl, h.sameFrom_dropTo hlt hhi ht⟩

/-- A snapshot of a compacted log up to an index of the log, with the term that the log has
there, leaves a compacted log that answers every lookup above the index as before. -/
theorem react_generated_invisible (h : r.Trimmed) (hlo : r.lastIncludedIndex ≤ i)
    (hhi : i ≤ r.lastLogIndex) (ht : r.getTermAt i = some t) :
    let x := r.react (.message (.generateSnapshotResponse
      { lastAppliedIndex := i, lastAppliedTerm := t }))
    x.thrown = false ∧ x.raft.lastIncludedIndex = i ∧ x.raft.baseIndex = i + 1 ∧
      x.raft.lastLogIndex = x.raft.baseIndex + x.raft.logs.length - 1 ∧
      SameFrom i x.raft r := by
  have hok : ¬ ((i : Int) = -1 ∧ t = 0) := by
    have h0 := h.included
    omega
  have hthrown : (r.react (.message (.generateSnapshotResponse
      { lastAppliedIndex := i, lastAppliedTerm := t }))).thrown = false := by
    rw [react_eq]
    show RaftM.isThrow ((handleGenerateSnapshot _).run _) = false
    unfold handleGenerateSnapshot
    rw [RaftM.ite_run, if_neg hok]
    rfl
  obtain ⟨hs, hi, hsame⟩ := h.snapshotTaken hlo hhi ht
  intro x
  have hx : x.raft = (r.snapshotTaken _).setIsSnapshoting false := react_generated hok
  rw [hx]
  exact ⟨hthrown, hi, hs.base.trans (by rw [hi]), hs.whole,
    hsame.termAt, hsame.matchAt, hsame.logAt, hsame.logFrom⟩

/-- A leader of term 2 with three entries and no snapshot yet. -/
def threeEntries : Raft :=
  { make 0 [0, 1, 2] with
    role := .leader
    term := 2
    logs := [{ term := 1 }, { term := 1 }, { term := 2 }]
    lastLogIndex := 3
    lastLogTerm := 2 }

theorem trimmed_threeEntries : threeEntries.Trimmed := ⟨by decide, by decide, rfl⟩

/-- A snapshot up to the second of three entries leaves one of them. -/
theorem react_generated_threeEntries :
    threeEntries.getTermAt 2 = some 1 ∧
      let x := threeEntries.react (.message (.generateSnapshotResponse
        { lastAppliedIndex := 2, lastAppliedTerm := 1 }))
      x.thrown = false ∧ x.raft.lastIncludedIndex = 2 ∧ x.raft.baseIndex = 3 ∧
        x.raft.lastLogIndex = x.raft.baseIndex + x.raft.logs.length - 1 ∧
        SameFrom 2 x.raft threeEntries :=
  ⟨rfl, react_generated_invisible trimmed_threeEntries (by decide) (by decide) rfl⟩

end Taken

end Raft

end WWRaftKV
