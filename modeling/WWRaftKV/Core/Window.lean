/-
The log that a node stands for.

A node keeps the end of its log in a vector, the rest has been compacted.
`Holds r l` says that the vector and the six marks around it describe the end of the
log `l`, which starts at index 1.  `Part r l` is what remains of it in a node that has
shortened its vector and died.
-/
import WWRaftKV.Core.Exec
import WWRaftKV.General.TermLog

namespace WWRaftKV

open TermLog

/-- The log as the nodes share it: terms and commands. -/
abbrev CoreLog := List RaftPersistLogEntry

/-- The entry at index `i`, counted from 1, when there is one and `t` is not 0, has term
`t`.  `_GetTermAt` answers 0 where it knows nothing. -/
def Label (l : CoreLog) (i : Int) (t : Nat) : Prop :=
  t = 0 ∨ 1 ≤ i ∧ ∃ e, l[(i - 1).toNat]? = some e ∧ e.term = t

theorem Label.mono {l l' : CoreLog} {i : Int} {t : Nat} (h : Label l i t) (hl : l <+: l') :
    Label l' i t := by
  rcases h with h | ⟨hi, e, he, ht⟩
  · exact .inl h
  · exact .inr ⟨hi, e, getElem?_of_isPrefix hl he, ht⟩

namespace Raft

structure Part (r : Raft) (l : CoreLog) : Prop where
  base : 1 ≤ r.baseIndex
  base_le : r.baseIndex ≤ l.length + 1
  logs : r.logs.map RaftLogEntry.core <+: l.drop (r.baseIndex - 1).toNat

structure Holds (r : Raft) (l : CoreLog) : Prop where
  base : 1 ≤ r.baseIndex
  base_le : r.baseIndex ≤ l.length + 1
  logs : r.logs.map RaftLogEntry.core = l.drop (r.baseIndex - 1).toNat
  lastIndex : r.lastLogIndex = l.length
  lastTerm : r.lastLogTerm = TermLog.lastTerm RaftPersistLogEntry.term l
  included : Label l r.lastIncludedIndex r.lastIncludedTerm

theorem holds_make (id : Int) (ids : List Int) : (make id ids).Holds [] where
  base := Int.le_refl 1
  base_le := Int.le_refl 1
  logs := rfl
  lastIndex := rfl
  lastTerm := rfl
  included := .inl rfl

theorem logsAt_some {r : Raft} {k : Int} {e : RaftLogEntry} (h : r.logsAt k = some e) :
    0 ≤ k ∧ r.logs[k.toNat]? = some e := by
  unfold logsAt at h
  split at h
  · cases h
  · exact ⟨by omega, h⟩

namespace Part

variable {r : Raft} {l l' : CoreLog}

theorem getLogAt (h : r.Part l) {i : Int} {e : RaftLogEntry} (he : r.getLogAt i = some e) :
    1 ≤ i ∧ l[(i - 1).toNat]? = some e.core := by
  have hb := h.base
  unfold Raft.getLogAt at he
  split at he
  · cases he
  next hr =>
    obtain ⟨hk, hget⟩ := logsAt_some he
    refine ⟨by omega, ?_⟩
    have hcore : (r.logs.map RaftLogEntry.core)[(i - r.baseIndex).toNat]? = some e.core := by
      rw [List.getElem?_map, hget]
      rfl
    have hdrop := getElem?_of_isPrefix h.logs hcore
    rw [List.getElem?_drop] at hdrop
    rw [show (i - 1).toNat = (r.baseIndex - 1).toNat + (i - r.baseIndex).toNat by omega]
    exact hdrop

end Part

namespace Holds

variable {r : Raft} {l : CoreLog}

theorem part (h : r.Holds l) : r.Part l where
  base := h.base
  base_le := h.base_le
  logs := by rw [h.logs]

theorem length (h : r.Holds l) : (r.logs.length : Int) = l.length + 1 - r.baseIndex := by
  have hlen := congrArg List.length h.logs
  have hb := h.base
  have hle := h.base_le
  rw [List.length_map, List.length_drop] at hlen
  omega

/-- The vector reaches every index between its base and the last one. -/
theorem logsAt (h : r.Holds l) {i : Int} (hb : r.baseIndex ≤ i) (hi : i ≤ l.length) :
    ∃ e, r.logsAt (i - r.baseIndex) = some e ∧ l[(i - 1).toNat]? = some e.core := by
  have hlen := h.length
  have hbase := h.base
  have hk : (i - r.baseIndex).toNat < r.logs.length := by omega
  have hat : r.logsAt (i - r.baseIndex) = some r.logs[(i - r.baseIndex).toNat] := by
    unfold Raft.logsAt
    rw [if_neg (by omega), List.getElem?_eq_getElem hk]
  refine ⟨_, hat, (h.part.getLogAt (i := i) ?_).2⟩
  unfold Raft.getLogAt
  rw [if_neg (by rw [h.lastIndex]; omega)]
  exact hat

theorem getLogAt (h : r.Holds l) {i : Int} (hb : r.baseIndex ≤ i) (hi : i ≤ l.length) :
    ∃ e, r.getLogAt i = some e ∧ l[(i - 1).toNat]? = some e.core := by
  obtain ⟨e, he, hl⟩ := h.logsAt hb hi
  refine ⟨e, ?_, hl⟩
  unfold Raft.getLogAt
  rw [if_neg (by rw [h.lastIndex]; omega)]
  exact he

/-- `_GetTermAt` never throws, and what it says is true. -/
theorem getTermAt (h : r.Holds l) (i : Int) :
    ∃ t, r.getTermAt i = some t ∧ Label l i t := by
  unfold Raft.getTermAt
  split
  next hi =>
    rw [hi]
    exact ⟨_, rfl, h.included⟩
  next hi =>
    split
    · exact ⟨0, rfl, .inl rfl⟩
    next hr =>
      rw [h.lastIndex] at hr
      obtain ⟨e, he, hl⟩ := h.logsAt (i := i) (by omega) (by omega)
      have hb := h.base
      rw [he]
      exact ⟨e.term, rfl, .inr ⟨by omega, e.core, hl, rfl⟩⟩

theorem label_of_getTermAt (h : r.Holds l) {i : Int} {t : Nat} (ht : r.getTermAt i = some t) :
    Label l i t := by
  obtain ⟨t', ht', hl⟩ := h.getTermAt i
  rw [ht] at ht'
  rw [Option.some.inj ht']
  exact hl

/-- Neither does `_LogMatch`. -/
theorem logMatch (h : r.Holds l) (i : Int) (t : Nat) : ∃ b, r.logMatch i t = some b := by
  unfold Raft.logMatch
  split
  · exact ⟨true, rfl⟩
  split
  · exact ⟨_, rfl⟩
  split
  · exact ⟨false, rfl⟩
  obtain ⟨u, hu, _⟩ := h.getTermAt i
  rw [hu]
  exact ⟨_, rfl⟩

theorem getLogFrom (h : r.Holds l) {i : Int} (hi : 1 ≤ i) :
    (r.getLogFrom i).map RaftLogEntry.core <+: l.drop (i - 1).toNat := by
  unfold Raft.getLogFrom
  split
  · exact List.nil_prefix
  next hr =>
    have hb := h.base
    rw [List.map_drop, h.logs, List.drop_drop]
    rw [show (r.baseIndex - 1).toNat + (i - r.baseIndex).toNat = (i - 1).toNat by omega]

/-! ## Changes of the vector -/

/-- Only the seven fields matter. -/
theorem congr {r' : Raft} (h : r.Holds l) (hb : r'.baseIndex = r.baseIndex)
    (hl : r'.logs = r.logs) (hi : r'.lastLogIndex = r.lastLogIndex)
    (ht : r'.lastLogTerm = r.lastLogTerm) (hn : r'.lastIncludedIndex = r.lastIncludedIndex)
    (hm : r'.lastIncludedTerm = r.lastIncludedTerm) : r'.Holds l where
  base := hb ▸ h.base
  base_le := hb ▸ h.base_le
  logs := by rw [hl, hb, h.logs]
  lastIndex := hi.trans h.lastIndex
  lastTerm := ht.trans h.lastTerm
  included := by
    rw [hn, hm]
    exact h.included

theorem logs_append (h : r.Holds l) (es : List RaftLogEntry) :
    (r.logs ++ es).map RaftLogEntry.core =
      (l ++ es.map RaftLogEntry.core).drop (r.baseIndex - 1).toNat := by
  have hb := h.base
  have hle := h.base_le
  rw [List.map_append, h.logs, List.drop_append_of_le_length (by omega)]

theorem append (h : r.Holds l) {es : List RaftLogEntry} (hne : es ≠ []) :
    (r.appendLogs es).refreshLast.Holds (l ++ es.map RaftLogEntry.core) where
  base := h.base
  base_le := by
    have hb := h.base_le
    simp only [appendLogs_baseIndex, refreshLast_baseIndex, List.length_append]
    omega
  logs := h.logs_append es
  lastIndex := by
    have hlen := h.length
    simp only [refreshLast_lastLogIndex, appendLogs_baseIndex, appendLogs_logs,
      List.length_append, List.length_map]
    omega
  lastTerm := by
    obtain ⟨q, f, rfl⟩ := exists_append_of_ne_nil hne
    rw [List.map_append, ← List.append_assoc, List.map_singleton, lastTerm_append]
    simp only [refreshLast_lastLogTerm, appendLogs_logs]
    rw [← List.append_assoc, List.getLast?_concat]
    rfl
  included := h.included.mono (List.prefix_append _ _)

theorem write (h : r.Holds l) {e : RaftLogEntry} (he : e.term = r.term) :
    (r.appendLogs [e]).advanceLast.Holds (l ++ [e.core]) where
  base := h.base
  base_le := by
    have hb := h.base_le
    simp only [appendLogs_baseIndex, advanceLast_baseIndex, List.length_append]
    omega
  logs := h.logs_append [e]
  lastIndex := by
    have hi := h.lastIndex
    simp only [advanceLast_lastLogIndex, appendLogs_lastLogIndex, List.length_append,
      List.length_singleton]
    omega
  lastTerm := by
    rw [lastTerm_append]
    exact he.symm
  included := h.included.mono (List.prefix_append _ _)

theorem truncateBefore (h : r.Holds l) (i : Int) : (r.truncateBefore i).Holds l := by
  unfold Raft.truncateBefore
  split
  · exact h
  next hr =>
    have hb := h.base
    have hi := h.lastIndex
    exact {
      base := by
        rw [dropTo_baseIndex]
        omega
      base_le := by
        rw [dropTo_baseIndex]
        omega
      logs := by
        rw [dropTo_logs, dropTo_baseIndex, List.map_drop, h.logs, List.drop_drop]
        congr 1
        omega
      lastIndex := h.lastIndex
      lastTerm := h.lastTerm
      included := h.included }

theorem setLastIncluded (h : r.Holds l) {i : Int} {t : Nat} (hl : Label l i t) :
    (r.setLastIncluded i t).Holds l where
  base := h.base
  base_le := h.base_le
  logs := h.logs
  lastIndex := h.lastIndex
  lastTerm := h.lastTerm
  included := hl

theorem truncateAfter_part (h : r.Holds l) (i : Int) : (r.truncateAfter i).Part l := by
  unfold Raft.truncateAfter
  split
  · exact h.part
  next hr =>
    have hlen := h.length
    have hi := h.lastIndex
    refine ⟨h.base, h.base_le, ?_⟩
    rw [setLogs_logs, setLogs_baseIndex, resizeLogs, ← h.logs]
    rw [show (i - r.baseIndex).toNat - r.logs.length = 0 by omega, List.replicate_zero,
      List.append_nil]
    exact (List.take_prefix _ _).map _

/-- A mismatch inside the vector shortens it, and the look-up that follows throws. -/
theorem truncateAfter (h : r.Holds l) {i : Int} (hi : r.lastIncludedIndex ≠ i) :
    (r.truncateAfter i).Holds l ∨ (r.truncateAfter i).getTermAt i = none := by
  by_cases hr : i < r.baseIndex ∨ i > r.lastLogIndex
  · left
    unfold Raft.truncateAfter
    rw [if_pos hr]
    exact h
  · exact .inr (getTermAt_truncateAfter hr (Ne.symm hi))

end Holds

end Raft

end WWRaftKV
