/-
The log bookkeeping of a node over its runs.
-/
import WWRaftKV.Node.Books

namespace WWRaftKV

open Raft

/-! ## The start -/

section Start

variable (id : Int) (ids : List Int)

theorem loadPersist_booked (d : RaftPersistData) :
    ((make id ids).loadPersist d).Booked where
  base := rfl
  last := rfl
  lastTerm := by
    show (Raft.getTermAt _ _).getD 0 = _
    unfold getTermAt logsAt
    simp only [loadPersist, make, List.nil_append, List.length_map]
    by_cases hn : d.entries = []
    · simp [hn]
    · have hpos := List.length_pos_of_ne_nil hn
      have hlt : d.entries.length - 1 < (d.entries.map RaftPersistLogEntry.entry).length := by
        rw [List.length_map]
        omega
      have hidx : (d.lastIncludedIndex + 1 + (d.entries.length : Int) - 1 -
        (d.lastIncludedIndex + 1)).toNat = d.entries.length - 1 := by omega
      rw [if_neg (by omega), if_neg (by omega), if_neg (by omega), List.getLast?_eq_getElem?,
        List.length_map, hidx, List.getElem?_eq_getElem hlt]
      rfl

theorem restart_booked (file : Option RaftPersistData) : (restart id ids file).Booked := by
  cases file with
  | none => exact booked_make id ids
  | some d => exact loadPersist_booked id ids d

/-- At the start the commit and the applied index are at the snapshot point. -/
theorem restart_marks (file : Option RaftPersistData) :
    (restart id ids file).lastCommitIndex = (restart id ids file).lastIncludedIndex ∧
      (restart id ids file).lastAppliedIndex = (restart id ids file).lastIncludedIndex := by
  cases file <;> exact ⟨rfl, rfl⟩

theorem restart_ranked (file : Option RaftPersistData) : (restart id ids file).Ranked := by
  cases file <;> exact fun h => absurd rfl h

theorem restart_books (file : Option RaftPersistData) : Books (restart id ids file) [] := by
  have hb := restart_booked id ids file
  have hbase := hb.base
  have hlast := hb.last
  obtain ⟨hc, ha⟩ := restart_marks id ids file
  refine ⟨hb, by omega, by omega, ?_, ?_, Nat.zero_le _⟩
  · exact fun m hm => absurd hm List.not_mem_nil
  · exact fun m hm => absurd hm List.not_mem_nil

theorem restart_inOrder (file : Option RaftPersistData) : InOrder (restart id ids file) [] := by
  obtain ⟨hc, ha⟩ := restart_marks id ids file
  refine ⟨by omega, by omega, ?_, Nat.zero_le _, ?_⟩
  · exact fun m hm => absurd hm List.not_mem_nil
  · exact fun m hm => absurd hm List.not_mem_nil

end Start

/-! ## Runs -/

/-- The books of a live process. -/
structure View.Kept (v : View) : Prop where
  ranked : v.raft.Ranked
  books : Books v.raft v.channel

theorem upholds_books {ok : Raft → Input → Prop} (hok : ∀ r i, ok r i → InstallsAtPoint r i) :
    Upholds ok View.Kept fun _ => True where
  perm := fun _ _ h hp => ⟨h.ranked, h.books.perm hp⟩
  permWeak := fun _ _ _ _ => trivial
  receive := fun _ _ h hm => ⟨h.ranked, h.books.quiet (quiet_of_not_isLocal hm)⟩
  drop := fun _ _ _ h hc => ⟨h.ranked, Books.drop (hc ▸ h.books)⟩
  answer := fun _ _ _ _ _ h hc hm => ⟨h.ranked, Books.answer (hc ▸ h.books) hm⟩
  core := fun _ i _ h hc hg ht =>
    ⟨h.ranked.react i, Books.react (hc ▸ h.books) h.ranked (hok _ _ hg) ht⟩
  dies := fun _ _ _ _ _ _ => trivial
  weak := fun _ _ => trivial

theorem upholds_inOrder : Upholds KeepsBookkeeping
    (fun v => v.Kept ∧ InOrder v.raft v.channel) fun _ => True := by
  apply (upholds_books fun _ _ hk => hk.install).and
  · intro v ch h hp
    exact h.perm hp
  · intro v m h hm
    exact h.quiet (quiet_of_not_isLocal hm)
  · intro v m ch h hc
    exact InOrder.drop (hc ▸ h)
  · intro v b m x ch h hc hm
    exact InOrder.answer (hc ▸ h) hm
  · intro v i ch hk h hc hg ht
    exact InOrder.react (hc ▸ hk.books) (hc ▸ h) hk.ranked hg ht

open Process

/-- Log bookkeeping, in every state of a live node that has been reached by steps that
keep it, from a fresh start or from any file. -/
theorem logBookkeeping_of_keepsBookkeeping (id : Int) (ids : List Int)
    (file : Option RaftPersistData) (p : Process)
    (hr : Reaches (Obeys KeepsBookkeeping) id ids file p) (ha : p.alive = true) :
    p.raft.LogBookkeeping := by
  obtain ⟨hk, ho⟩ := (upholds_inOrder.reaches
    ⟨⟨restart_ranked id ids file, restart_books id ids file⟩, restart_inOrder id ids file⟩
    hr).1 ha
  exact ⟨hk.books.toBooked, ho.included, ho.applied, hk.books.commit⟩

/-- A follower appends three entries, commits and applies them, and takes a snapshot. -/
def snapshotTaken : List Event :=
  [.request 0 (.appendEntriesRequest
      { term := 1, fromId := 0, prevLogIndex := 0, prevLogTerm := 0, leaderCommit := 3,
        entries := [{ term := 1 }, { term := 1 }, { term := 1 }] }),
    .handle, .clerk true, .clerk true, .handle, .clerk true, .handle]

theorem logBookkeeping_one :
    ∃ p, Reaches (Obeys KeepsBookkeeping) 1 [0, 1, 2] none p ∧
      p.raft.lastIncludedIndex = 3 ∧ p.raft.LogBookkeeping := by
  obtain ⟨p, hr, hp⟩ := Reaches.of_exec (Obeys KeepsBookkeeping) 1 [0, 1, 2] none snapshotTaken
    (fun p => decide (p.alive = true ∧ p.raft.lastIncludedIndex = 3)) (by decide +kernel)
  obtain ⟨ha, hi⟩ := of_decide_eq_true hp
  exact ⟨p, hr, hi, logBookkeeping_of_keepsBookkeeping 1 [0, 1, 2] none p hr ha⟩

/-- A snapshot up to index 3 reaches a fresh node, and its clerk installs it. -/
def snapshotArrives : List Event :=
  [.request 0 (.installSnapshotRequest
      { term := 1, fromId := 0, lastIncludedIndex := 3, lastIncludedTerm := 1 }),
    .handle, .clerk true, .handle]

theorem base_left_behind :
    ¬ ∀ (id : Int) (ids : List Int) (file : Option RaftPersistData) (p : Process),
      Reaches (Obeys anyInput) id ids file p → p.alive = true → p.raft.LogBookkeeping := by
  intro h
  obtain ⟨p, hr, hp⟩ := Reaches.of_exec (Obeys anyInput) 1 [0, 1, 2] none snapshotArrives
    (fun p => decide (p.alive = true ∧ p.raft.baseIndex ≠ p.raft.lastIncludedIndex + 1))
    (by decide +kernel)
  obtain ⟨ha, hne⟩ := of_decide_eq_true hp
  exact hne (h 1 [0, 1, 2] none p hr ha).base

end WWRaftKV
