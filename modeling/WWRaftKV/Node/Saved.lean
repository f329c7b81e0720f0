/-
What the persist file holds.

Every write of the file is one of the data of the node at that moment.  So what the data of
a node has, and every change keeps, all writes of a step have too, in whichever of them the
process ends.  Of the entries behind the snapshot point none is lost in this way.
-/
import WWRaftKV.Node.Contents
import WWRaftKV.Node.PersistData
import WWRaftKV.Node.Restart

namespace WWRaftKV

open Raft Process

/-! ## Entries in the file -/

/-- The data has the entries of the log behind its snapshot point, up to index `top`. -/
def RaftPersistData.Holds (L : LogOf) (top : Int) (d : RaftPersistData) : Prop :=
  ∀ j, d.lastIncludedIndex < j → j ≤ top →
    d.entries[(j - d.lastIncludedIndex - 1).toNat]? = some (L j)

namespace RaftPersistData.Holds

variable {L : LogOf} {top : Int} {d d' : RaftPersistData}

/-- Entries behind the others do no harm. -/
theorem append (h : d.Holds L top) (es : List RaftPersistLogEntry)
    (he : d'.entries = d.entries ++ es) (hi : d'.lastIncludedIndex = d.lastIncludedIndex) :
    d'.Holds L top := by
  intro j hlt hle
  rw [hi] at hlt ⊢
  have hj := h j hlt hle
  rw [he, List.getElem?_append_left (List.getElem?_eq_some_iff.mp hj).1]
  exact hj

theorem congr (h : d.Holds L top) (he : d'.entries = d.entries)
    (hi : d'.lastIncludedIndex = d.lastIncludedIndex) : d'.Holds L top :=
  h.append [] (he.trans (List.append_nil _).symm) hi

/-- The entries up to a later snapshot point may go. -/
theorem drop (h : d.Holds L top) (hle : d.lastIncludedIndex ≤ d'.lastIncludedIndex)
    (he : d'.entries =
      d.entries.drop (d'.lastIncludedIndex - d.lastIncludedIndex).toNat) : d'.Holds L top := by
  intro j hlt htop
  rw [he, List.getElem?_drop, show (d'.lastIncludedIndex - d.lastIncludedIndex).toNat +
    (j - d'.lastIncludedIndex - 1).toNat = (j - d.lastIncludedIndex - 1).toNat by omega]
  exact h j (by omega) htop

end RaftPersistData.Holds

/-- The entry of the node at an index is the one in its data. -/
theorem Raft.Booked.getLogAt_persistData {r : Raft} (h : r.Booked) {j : Int}
    (hj : r.lastIncludedIndex < j) : (r.getLogAt j).map RaftLogEntry.core =
      r.persistData.entries[(j - r.lastIncludedIndex - 1).toNat]? := by
  have hb := h.base
  have hl := h.last
  show _ = (r.logs.map RaftLogEntry.core)[_]?
  rw [List.getElem?_map]
  unfold Raft.getLogAt
  by_cases hin : j < r.baseIndex ∨ j > r.lastLogIndex
  · rw [if_pos hin, List.getElem?_eq_none (by omega)]
  · rw [if_neg hin, logsAt, if_neg (by omega), show j - r.lastIncludedIndex - 1 =
      j - r.baseIndex by omega]

theorem Raft.Booked.getLogAt_of_holds {r : Raft} {L : LogOf} {top j : Int} (h : r.Booked)
    (hd : r.persistData.Holds L top) (hj : r.lastIncludedIndex < j) (htop : j ≤ top) :
    (r.getLogAt j).map RaftLogEntry.core = some (L j) :=
  (h.getLogAt_persistData hj).trans (hd j hj htop)

section Change

variable {r : Raft} {i : Input} {a b : Scope} {L : LogOf} {top : Int}

theorem holds_of_marks {s : Raft} (h : r.persistData.Holds L top) (hk : s.marks = r.marks) :
    s.persistData.Holds L top := by
  apply h.congr
  · exact congrArg (List.map RaftLogEntry.core) (logs_of_marks hk)
  · exact lastIncludedIndex_of_marks hk

/-- What is written into the file is the data of the node. -/
theorem Raft.Change.persisted (hc : Change r i a b) :
    persistedOf b.effects = persistedOf a.effects ∨
      persistedOf b.effects = persistedOf a.effects ++ [b.raft.persistData] := by
  cases hc with
  | emit _ m => exact .inl ((persistedOf_append _ _).trans (List.append_nil _))
  | turn _ r' => exact .inl rfl
  | vote _ r' => exact .inr (persistedOf_append _ _)
  | sync _ m => exact .inr (persistedOf_append _ _)
  | follow _ m => exact .inl rfl
  | reject _ m t => exact .inl rfl
  | write m text => exact .inr rfl
  | confirm m => exact .inl rfl
  | hand _ es => exact .inl ((persistedOf_append _ _).trans (List.append_nil _))
  | applied m => exact .inl rfl
  | demand _ t => exact .inl ((persistedOf_append _ _).trans (List.append_nil _))
  | generated m => exact .inr rfl
  | installed m => exact .inl rfl

/-- No change loses an entry behind the snapshot point. -/
theorem holds_change (hi : InstallsOwn r i) (hc : Change r i a b) (ha : a.raft.Booked)
    (hb : b.raft.Booked) (h : a.raft.persistData.Holds L top) :
    b.raft.persistData.Holds L top := by
  cases hc with
  | turn _ r' hk => exact holds_of_marks h hk
  | vote _ r' hk => exact holds_of_marks h hk
  | sync _ m =>
    apply h.append (m.entries.map RaftLogEntry.core)
    · exact List.map_append
    · rfl
  | reject _ m t hm hl hk ht =>
    show (a.raft.truncateAfter m.prevLogIndex).persistData.Holds L top
    rw [ha.truncateAfter ht]
    exact h
  | write m text =>
    apply h.append [(r.entryOf m text).core]
    · exact List.map_append
    · rfl
  | generated m hm hok =>
    have hbase : r.baseIndex = r.lastIncludedIndex + 1 := ha.base
    have hbase' : (r.truncateBefore (m.lastAppliedIndex + 1)).baseIndex =
      m.lastAppliedIndex + 1 := hb.base
    show ((r.snapshotTaken m).setIsSnapshoting false).persistData.Holds L top
    unfold truncateBefore at hbase'
    split at hbase'
    · -- the point stays where it is
      apply h.congr
      · show (r.truncateBefore _).logs.map RaftLogEntry.core = _
        rw [truncateBefore, if_pos ‹_›]
        rfl
      · show m.lastAppliedIndex = r.lastIncludedIndex
        omega
    · apply h.drop
      · show r.lastIncludedIndex ≤ m.lastAppliedIndex
        omega
      · show (r.truncateBefore _).logs.map RaftLogEntry.core = _
        rw [truncateBefore, if_neg ‹_›, dropTo_logs, List.map_drop]
        show _ = (r.logs.map RaftLogEntry.core).drop
          (m.lastAppliedIndex - r.lastIncludedIndex).toNat
        rw [hbase, show m.lastAppliedIndex + 1 - (r.lastIncludedIndex + 1) =
          m.lastAppliedIndex - r.lastIncludedIndex by omega]
  | installed m hm hok =>
    subst hm
    obtain ⟨hidx, _⟩ := hi hok
    have hbase : r.baseIndex = r.lastIncludedIndex + 1 := ha.base
    apply h.congr
    · show (r.truncateBefore _).logs.map RaftLogEntry.core = _
      rw [truncateBefore, if_pos (by omega)]
      rfl
    · exact hidx
  | _ => exact h

end Change

/-! ## Steps -/

/-- All numbers that are written are ones of their types. -/
def WritesTyped (r : Raft) (i : Input) : Prop := ∀ d ∈ (r.react i).persisted, d.Typed

instance (r : Raft) (i : Input) : Decidable (WritesTyped r i) := by
  unfold WritesTyped
  infer_instance

/-- The steps that keep the file as good as the node. -/
structure KeepsFile (r : Raft) (i : Input) : Prop where
  own : InstallsOwn r i
  typed : WritesTyped r i

instance (r : Raft) (i : Input) : Decidable (KeepsFile r i) :=
  decidable_of_iff (InstallsOwn r i ∧ WritesTyped r i)
    ⟨fun h => ⟨h.1, h.2⟩, fun h => ⟨h.own, h.typed⟩⟩

/-- The file restores the node, and has the entries up to index `top`. -/
structure View.Saved (id : Int) (ids : List Int) (L : LogOf) (top : Int) (v : View) : Prop
    extends v.Durable id ids where
  holds : v.raft.persistData.Holds L top
  typed : ∀ d ∈ v.file, d.Typed

section Saved

variable {id : Int} {ids : List Int} {L : LogOf} {top : Int} {v : View} {i : Input}
  {ch : List RaftMessage}

/-- Every write of a step has the entries, also when the step throws. -/
theorem View.Durable.writes (h : v.Durable id ids) (hc : v.channel = i.taken ++ ch)
    (hi : InstallsOwn v.raft i) (hd : v.raft.persistData.Holds L top) :
    (∀ d ∈ (v.raft.react i).persisted, d.Holds L top) ∧
      ((v.raft.react i).thrown = false → (v.raft.react i).raft.persistData.Holds L top) := by
  have hb : Books v.raft (i.taken ++ ch) := hc ▸ h.books
  have hh := hb.honest h.ranked hi.atPoint
  have hstart : Books v.raft ch := by
    cases i with
    | message m => exact Books.drop hb
    | _ => exact hb
  have hgoes {s : Scope} (hs : Goes v.raft i s) : Books s.raft (ch ++ pushedOf s.effects) ∧
      s.raft.persistData.Holds L top ∧ ∀ d ∈ persistedOf s.effects, d.Holds L top := by
    apply hs.invariant (I := fun s => Books s.raft (ch ++ pushedOf s.effects) ∧
      s.raft.persistData.Holds L top ∧ ∀ d ∈ persistedOf s.effects, d.Holds L top)
      ⟨(List.append_nil ch).symm ▸ hstart, hd, nofun⟩
    rintro a b hab ⟨hbooks, hholds, hwritten⟩
    have hbooks' := Books.change hh hab hbooks
    have hholds' := holds_change hi hab hbooks.toBooked hbooks'.toBooked hholds
    refine ⟨hbooks', hholds', ?_⟩
    rcases hab.persisted with heq | heq
    · rw [heq]
      exact hwritten
    · rw [heq]
      intro d hd
      rcases List.mem_append.mp hd with hd | hd
      · exact hwritten d hd
      · rw [List.mem_singleton.mp hd]
        exact hholds'
  constructor
  · obtain ⟨s, hs, heff, _⟩ := (react_breaks v.raft i).reached
    have heff' : (v.raft.react i).persisted = persistedOf s.effects := congrArg persistedOf heff
    rw [heff']
    exact (hgoes hs).2.2
  · exact fun ht => (hgoes (react_goes ht)).2.1

theorem typed_some {d : RaftPersistData} (h : d.Typed) : ∀ x ∈ some d, x.Typed := by
  intro x hx
  obtain rfl := Option.mem_some_iff.mp hx
  exact h

theorem upholds_saved (id : Int) (ids : List Int) (L : LogOf) (top : Int) :
    Upholds KeepsFile (View.Saved id ids L top) fun _ => True := by
  have hk := upholds_durable id ids
  exact {
    perm := fun v ch h hp => ⟨hk.perm v ch h.toDurable hp, h.holds, h.typed⟩
    permWeak := hk.permWeak
    receive := fun v m h hm => ⟨hk.receive v m h.toDurable hm, h.holds, h.typed⟩
    drop := fun v m ch h hc => ⟨hk.drop v m ch h.toDurable hc, h.holds, h.typed⟩
    answer := fun v b m x ch h hc hm => ⟨hk.answer v b m x ch h.toDurable hc hm, h.holds, h.typed⟩
    core := fun v i ch h hc hg ht => ⟨hk.core v i ch h.toDurable hc hg.own ht,
      (h.toDurable.writes hc hg.own h.holds).2 ht,
      file_ind (Q := fun f => ∀ d ∈ f, d.Typed) h.typed fun d hd => typed_some (hg.typed d hd)⟩
    dies := fun _ _ _ _ _ _ => trivial
    weak := fun _ _ => trivial }

end Saved

end WWRaftKV
