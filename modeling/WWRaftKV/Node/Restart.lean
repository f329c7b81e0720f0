/-
What a restart gives back.

The persist file holds the vector without its base, and the loader puts the base right
behind the snapshot point.  So a restart gives back what the node had in memory when the
file is up to date and the books are in order.
-/
import WWRaftKV.Node.Bookkeeping

namespace WWRaftKV

open Raft Process

/-- `r'` has the durable state of `r`. -/
structure Raft.Restores (r' r : Raft) : Prop where
  term : r'.term = r.term
  votedFor : r'.votedFor = r.votedFor
  lastIncludedIndex : r'.lastIncludedIndex = r.lastIncludedIndex
  lastIncludedTerm : r'.lastIncludedTerm = r.lastIncludedTerm
  log : ∀ i, (r'.getLogAt i).map RaftLogEntry.core = (r.getLogAt i).map RaftLogEntry.core

/-- A snapshot that has been installed is the node's own. -/
def InstallsOwn (r : Raft) : Input → Prop
  | .message (.applySnapshotResponse m) =>
    ¬ (m.lastIncludedIndex = -1 ∧ m.lastIncludedTerm = 0) →
      m.lastIncludedIndex = r.lastIncludedIndex ∧ m.lastIncludedTerm = r.lastIncludedTerm
  | _ => True

instance (r : Raft) (i : Input) : Decidable (InstallsOwn r i) := by
  induction i using Input.casesOn with
  | message m =>
    induction m using RaftMessage.casesOn <;> unfold InstallsOwn <;> infer_instance
  | _ => exact .isTrue trivial

theorem InstallsOwn.atPoint {r : Raft} {i : Input} (h : InstallsOwn r i) :
    InstallsAtPoint r i := by
  unfold InstallsAtPoint
  split
  · exact fun hok => ⟨(h hok).1, .inl (h hok).2⟩
  · trivial

/-! ## The file -/

section File

variable (id : Int) (ids : List Int)

theorem loadPersist_persistData (d : RaftPersistData) :
    ((make id ids).loadPersist d).persistData = d := by
  have hmap : (d.entries.map RaftPersistLogEntry.entry).map RaftLogEntry.core = d.entries := by
    rw [List.map_map]
    exact List.map_id _
  simp only [persistData, loadPersist, make, List.nil_append, hmap]

/-- The data that a restart from this file and from these persists would load. -/
def stored (file : Option RaftPersistData) (es : List Effect) : RaftPersistData :=
  (restart id ids ((persistedOf es).getLast?.or file)).persistData

variable {id ids} {file : Option RaftPersistData}

theorem stored_push (es : List Effect) (m : RaftMessage) :
    stored id ids file (es ++ [.push m]) = stored id ids file es := by
  unfold stored
  rw [persistedOf_append, persistedOf_push, persistedOf_nil, List.append_nil]

theorem stored_persist (es : List Effect) (d : RaftPersistData) :
    stored id ids file (es ++ [.persist d]) = d := by
  unfold stored
  rw [persistedOf_append, persistedOf_persist, persistedOf_nil, List.getLast?_concat]
  exact loadPersist_persistData id ids d

/-- The file is up to date after every change, provided that an installed snapshot is the
node's own.  `_HandleApplySnapshot` does not persist. -/
theorem stored_change {r : Raft} {i : Input} (hi : InstallsOwn r i) {a b : Scope}
    (hc : Change r i a b) (hb : a.raft.Booked)
    (h : stored id ids file a.effects = a.raft.persistData) :
    stored id ids file b.effects = b.raft.persistData := by
  cases hc with
  | emit _ m hm => exact (stored_push _ _).trans h
  | turn _ r' hk hd => exact h.trans hd.symm
  | vote _ r' hk => exact stored_persist _ _
  | sync _ m hne => exact stored_persist _ _
  | follow _ m => exact h
  | reject _ m t hm hl hk ht =>
    show stored id ids file a.effects = (a.raft.truncateAfter m.prevLogIndex).persistData
    rw [hb.truncateAfter ht]
    exact h
  | write m text => exact stored_persist [] _
  | confirm m => exact h
  | hand _ es ha => exact (stored_push _ _).trans h
  | applied m => exact h
  | demand _ t hs => exact (stored_push _ _).trans h
  | generated m => exact stored_persist [] _
  | installed m hm hok =>
    subst hm
    obtain ⟨hidx, hterm⟩ := hi hok
    have hbase : r.baseIndex = r.lastIncludedIndex + 1 := hb.base
    have htrunc : r.truncateBefore m.lastIncludedIndex = r := by
      unfold truncateBefore
      rw [if_pos (by omega)]
    have hsame : r.snapshotInstalled m = r := by
      unfold snapshotInstalled setLastIncluded
      rw [htrunc, hidx, hterm]
    show stored id ids file r.start.effects = (r.snapshotInstalled m).persistData
    rw [hsame]
    exact h

end File

/-! ## Runs -/

/-- The books are kept and the file is up to date. -/
structure View.Durable (id : Int) (ids : List Int) (v : View) : Prop extends v.Kept where
  saved : (restart id ids v.file).persistData = v.raft.persistData

theorem View.Durable.react {id : Int} {ids : List Int} {v : View} {i : Input}
    {ch : List RaftMessage} (h : v.Durable id ids) (hc : v.channel = i.taken ++ ch)
    (hi : InstallsOwn v.raft i) (ht : (v.raft.react i).thrown = false) :
    (v.react i ch).Durable id ids := by
  have hb : Books v.raft (i.taken ++ ch) := hc ▸ h.books
  have hh := hb.honest h.ranked hi.atPoint
  have hstart : Books v.raft ch := by
    cases i with
    | message m => exact Books.drop hb
    | _ => exact hb
  have hgoes := (react_goes ht).invariant
    (I := fun s => Books s.raft (ch ++ pushedOf s.effects) ∧
      stored id ids v.file s.effects = s.raft.persistData)
    ⟨(List.append_nil ch).symm ▸ hstart, h.saved⟩ fun a b hc hab =>
      ⟨Books.change hh hc hab.1, stored_change hi hc hab.1.toBooked hab.2⟩
  exact ⟨⟨h.ranked.react i, hgoes.1⟩, hgoes.2⟩

theorem upholds_durable (id : Int) (ids : List Int) :
    Upholds InstallsOwn (View.Durable id ids) fun _ => True := by
  have hk := upholds_books fun _ _ => InstallsOwn.atPoint
  exact {
    perm := fun v ch h hp => ⟨hk.perm v ch h.toKept hp, h.saved⟩
    permWeak := hk.permWeak
    receive := fun v m h hm => ⟨hk.receive v m h.toKept hm, h.saved⟩
    drop := fun v m ch h hc => ⟨hk.drop v m ch h.toKept hc, h.saved⟩
    answer := fun v b m x ch h hc hm => ⟨hk.answer v b m x ch h.toKept hc hm, h.saved⟩
    core := fun _ _ _ h hc hi ht => h.react hc hi ht
    dies := fun v i ch h hc hi => hk.dies v i ch h.toKept hc hi
    weak := fun _ _ => trivial }

theorem durable_init (id : Int) (ids : List Int) (file : Option RaftPersistData) :
    (View.init id ids file).Durable id ids :=
  ⟨⟨restart_ranked id ids file, restart_books id ids file⟩, rfl⟩

/-- Two nodes with the same durable data and books in order have the same log. -/
theorem Raft.Booked.getLogAt_core {r' r : Raft} (h' : r'.Booked) (h : r.Booked)
    (hd : r'.persistData = r.persistData) (i : Int) :
    (r'.getLogAt i).map RaftLogEntry.core = (r.getLogAt i).map RaftLogEntry.core := by
  have hlogs : r'.logs.map RaftLogEntry.core = r.logs.map RaftLogEntry.core :=
    congrArg RaftPersistData.entries hd
  have hinc : r'.lastIncludedIndex = r.lastIncludedIndex :=
    congrArg RaftPersistData.lastIncludedIndex hd
  have hlen : r'.logs.length = r.logs.length := by
    have hl := congrArg List.length hlogs
    simpa using hl
  have hb := h.base
  have hb' := h'.base
  have hl := h.last
  have hl' := h'.last
  have hbase : r'.baseIndex = r.baseIndex := by omega
  have hlast : r'.lastLogIndex = r.lastLogIndex := by omega
  unfold Raft.getLogAt logsAt
  rw [hbase, hlast]
  split
  · rfl
  split
  · rfl
  · rw [← List.getElem?_map, ← List.getElem?_map, hlogs]

theorem View.Durable.restores {id : Int} {ids : List Int} {v : View} (h : v.Durable id ids) :
    (restart id ids v.file).Restores v.raft where
  term := congrArg RaftPersistData.term h.saved
  votedFor := congrArg RaftPersistData.votedFor h.saved
  lastIncludedIndex := congrArg RaftPersistData.lastIncludedIndex h.saved
  lastIncludedTerm := congrArg RaftPersistData.lastIncludedTerm h.saved
  log := (restart_booked id ids v.file).getLogAt_core h.books.toBooked h.saved

/-- A restart preserves the durable state, in every state of a live node in whose run all
installed snapshots were the node's own. -/
theorem restart_of_installsOwn (id : Int) (ids : List Int) (file : Option RaftPersistData)
    (p : Process) (hr : Reaches (Obeys InstallsOwn) id ids file p) (ha : p.alive = true) :
    (restart id ids p.file).Restores p.raft := by
  exact (((upholds_durable id ids).reaches (durable_init id ids file) hr).1 ha).restores

theorem restart_after_snapshot :
    ∃ p, Reaches (Obeys InstallsOwn) 1 [0, 1, 2] none p ∧ p.raft.lastIncludedIndex = 3 ∧
      (restart 1 [0, 1, 2] p.file).Restores p.raft := by
  obtain ⟨p, hr, hp⟩ := Reaches.of_exec (Obeys InstallsOwn) 1 [0, 1, 2] none snapshotTaken
    (fun p => decide (p.alive = true ∧ p.raft.lastIncludedIndex = 3)) (by decide +kernel)
  obtain ⟨ha, hi⟩ := of_decide_eq_true hp
  exact ⟨p, hr, hi, restart_of_installsOwn 1 [0, 1, 2] none p hr ha⟩

theorem installed_snapshot_not_persisted :
    ¬ ∀ (id : Int) (ids : List Int) (file : Option RaftPersistData) (p : Process),
      Reaches (Obeys anyInput) id ids file p → p.alive = true →
        (restart id ids p.file).Restores p.raft := by
  intro h
  obtain ⟨p, hr, hp⟩ := Reaches.of_exec (Obeys anyInput) 1 [0, 1, 2] none snapshotArrives
    (fun p => decide (p.alive = true ∧
      (restart 1 [0, 1, 2] p.file).lastIncludedIndex ≠ p.raft.lastIncludedIndex))
    (by decide +kernel)
  obtain ⟨ha, hne⟩ := of_decide_eq_true hp
  exact hne (h 1 [0, 1, 2] none p hr ha).lastIncludedIndex

end WWRaftKV
