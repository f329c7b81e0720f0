/-
The messages between two clerks.

A `_Send` method fills a message of `Raft.proto` from a message of the core, field by
field, and the `_Handle` method of the other node reads it back.  All integer fields on
the wire are `int64`.  Indices and ids are `int` at both ends, terms are `size_t`.  The
term of the previous entry goes through an `int` on its way in.
-/
import Mathlib.Algebra.Group.Int.Defs
import Mathlib.Algebra.Group.Nat.Defs
import WWRaftKV.Core.Message

namespace WWRaftKV

namespace Wire

/-! ## Conversions -/

/-- A value as an `int64_t`. -/
@[irreducible]
def toInt64 (x : Int) : Int := x.bmod (2 ^ 64)

/-- A value as an `int`. -/
@[irreducible]
def toInt (x : Int) : Int := x.bmod (2 ^ 32)

/-- A value as a `size_t`. -/
@[irreducible]
def toSize (x : Int) : Nat := (x % 2 ^ 64).toNat

/-- The value is one of an `int`. -/
def IsInt (x : Int) : Prop := -2 ^ 31 ≤ x ∧ x < 2 ^ 31

/-- The term is one that the wire can carry. -/
def IsTerm (t : Nat) : Prop := t < 2 ^ 63

theorem toInt_toInt64 {x : Int} (h : IsInt x) : toInt (toInt64 x) = x := by
  unfold IsInt at h
  have h64 : toInt64 x = x := by
    unfold toInt64
    exact Int.bmod_eq_of_le (by omega) (by omega)
  rw [h64]
  unfold toInt
  exact Int.bmod_eq_of_le (by omega) (by omega)

theorem toInt64_term {t : Nat} (h : IsTerm t) : toInt64 t = t := by
  unfold IsTerm at h
  unfold toInt64
  exact Int.bmod_eq_of_le (by omega) (by omega)

theorem toSize_toInt64 {t : Nat} (h : IsTerm t) : toSize (toInt64 t) = t := by
  rw [toInt64_term h]
  unfold IsTerm at h
  unfold toSize
  omega

/-- A term that goes through an `int` arrives if it fits into one. -/
theorem toSize_toInt_iff {t : Nat} (h : IsTerm t) :
    toSize (toInt (toInt64 t)) = t ↔ t < 2 ^ 31 := by
  rw [toInt64_term h]
  unfold IsTerm at h
  unfold toSize toInt
  by_cases hlow : ((t : Int) % 2 ^ 32) < 2 ^ 31
  · rw [Int.bmod_eq_emod_of_lt (by omega)]
    omega
  · rw [Int.bmod_neg _ _ (by omega)]
    omega

/-! ## The messages of `Raft.proto` -/

structure LogEntry where
  index : Int := 0
  term : Int
  command : Str
deriving DecidableEq, Repr

structure RequestVoteRequest where
  term : Int
  candidateId : Int
  lastLogIndex : Int
  lastLogTerm : Int
deriving DecidableEq, Repr

structure RequestVoteResponse where
  term : Int
  voteGranted : Bool
deriving DecidableEq, Repr

structure AppendEntriesRequest where
  term : Int
  leaderId : Int
  prevLogIndex : Int
  prevLogTerm : Int
  entries : List LogEntry
  leaderCommit : Int
deriving DecidableEq, Repr

structure AppendEntriesResponse where
  term : Int
  success : Bool
  lastLogIndex : Int
deriving DecidableEq, Repr

structure InstallSnapshotRequest where
  term : Int
  leaderId : Int
  offset : Int := 0
  lastIncludedIndex : Int
  lastIncludedTerm : Int
  data : Str
  done : Bool := false
deriving DecidableEq, Repr

structure InstallSnapshotResponse where
  term : Int
deriving DecidableEq, Repr

/-! ## Sending -/

def sendRequestVoteRequest (m : RaftRequestVoteRequestMessage) : RequestVoteRequest where
  term := toInt64 m.term
  candidateId := toInt64 m.fromId
  lastLogIndex := toInt64 m.lastLogIndex
  lastLogTerm := toInt64 m.lastLogTerm

def sendRequestVoteResponse (m : RaftRequestVoteResponseMessage) : RequestVoteResponse where
  term := toInt64 m.term
  voteGranted := m.voteGranted

def sendEntry (e : RaftLogEntry) : LogEntry where
  term := toInt64 e.term
  command := e.command

def sendAppendEntriesRequest (m : RaftAppendEntriesRequestMessage) : AppendEntriesRequest where
  term := toInt64 m.term
  leaderId := toInt64 m.fromId
  prevLogIndex := toInt64 m.prevLogIndex
  prevLogTerm := toInt64 m.prevLogTerm
  entries := m.entries.map sendEntry
  leaderCommit := toInt64 m.leaderCommit

def sendAppendEntriesResponse (m : RaftAppendEntriesResponseMessage) :
    AppendEntriesResponse where
  term := toInt64 m.term
  success := m.success
  lastLogIndex := toInt64 m.lastLogIndex

/-- The data is the text of the snapshot file. -/
def sendInstallSnapshotRequest (file : Str) (m : RaftInstallSnapshotRequestMessage) :
    InstallSnapshotRequest where
  term := toInt64 m.term
  leaderId := toInt64 m.fromId
  lastIncludedIndex := toInt64 m.lastIncludedIndex
  lastIncludedTerm := toInt64 m.lastIncludedTerm
  data := file

def sendInstallSnapshotResponse (m : RaftInstallSnapshotResponseMessage) :
    InstallSnapshotResponse where
  term := toInt64 m.term

/-! ## Handling -/

/-- A request gets the sequence id of its closure. -/
def handleRequestVoteRequest (seq : Nat) (q : RequestVoteRequest) :
    RaftRequestVoteRequestMessage where
  seq := seq
  fromId := toInt q.candidateId
  term := toSize q.term
  lastLogIndex := toInt q.lastLogIndex
  lastLogTerm := toSize q.lastLogTerm

def handleRequestVoteResponse (q : RequestVoteResponse) : RaftRequestVoteResponseMessage where
  term := toSize q.term
  voteGranted := q.voteGranted

def handleEntry (e : LogEntry) : RaftLogEntry where
  term := toSize e.term
  command := e.command

/-- `prev_log_term` is read into a `LogIndex`. -/
def handleAppendEntriesRequest (seq : Nat) (q : AppendEntriesRequest) :
    RaftAppendEntriesRequestMessage :=
  let otherPrevLogTerm := toInt q.prevLogTerm
  { seq := seq
    term := toSize q.term
    fromId := toInt q.leaderId
    prevLogIndex := toInt q.prevLogIndex
    prevLogTerm := toSize otherPrevLogTerm
    leaderCommit := toInt q.leaderCommit
    entries := q.entries.map handleEntry }

/-- The closure of the call knows who has been asked. -/
def handleAppendEntriesResponse (id : Int) (q : AppendEntriesResponse) :
    RaftAppendEntriesResponseMessage where
  fromId := id
  term := toSize q.term
  success := q.success
  lastLogIndex := toInt q.lastLogIndex

def handleInstallSnapshotRequest (seq : Nat) (q : InstallSnapshotRequest) :
    RaftInstallSnapshotRequestMessage where
  seq := seq
  term := toSize q.term
  fromId := toInt q.leaderId
  lastIncludedIndex := toInt q.lastIncludedIndex
  lastIncludedTerm := toSize q.lastIncludedTerm
  snapshot := q.data

def handleInstallSnapshotResponse (id : Int) (q : InstallSnapshotResponse) :
    RaftInstallSnapshotResponseMessage where
  term := toSize q.term
  fromId := id

/-! ## There and back -/

/-- The message that the other node's core gets, for a message that a core has emitted.
The other node gives a request the number `seq`, a response comes from the node `id`, and
`file` is the sender's snapshot file. -/
def carry (file : Str) (id : Int) (seq : Nat) : RaftMessage → Option RaftMessage
  | .requestVoteRequest m =>
    some (.requestVoteRequest (handleRequestVoteRequest seq (sendRequestVoteRequest m)))
  | .requestVoteResponse m =>
    some (.requestVoteResponse (handleRequestVoteResponse (sendRequestVoteResponse m)))
  | .appendEntriesRequest m =>
    some (.appendEntriesRequest (handleAppendEntriesRequest seq (sendAppendEntriesRequest m)))
  | .appendEntriesResponse m =>
    some (.appendEntriesResponse (handleAppendEntriesResponse id (sendAppendEntriesResponse m)))
  | .installSnapshotRequest m =>
    some (.installSnapshotRequest
      (handleInstallSnapshotRequest seq (sendInstallSnapshotRequest file m)))
  | .installSnapshotResponse m =>
    some (.installSnapshotResponse
      (handleInstallSnapshotResponse id (sendInstallSnapshotResponse m)))
  | _ => none

/-- What the core of node `id` can emit to a peer: indices are non-negative values of an
`int`, terms are below `2 ^ 63`. -/
def Emittable (id : Int) : RaftMessage → Prop
  | .requestVoteRequest m => IsTerm m.term ∧ IsInt m.fromId ∧
    (0 ≤ m.lastLogIndex ∧ IsInt m.lastLogIndex) ∧ IsTerm m.lastLogTerm
  | .requestVoteResponse m => IsTerm m.term
  | .appendEntriesRequest m => IsTerm m.term ∧ IsInt m.fromId ∧
    (0 ≤ m.prevLogIndex ∧ IsInt m.prevLogIndex) ∧ IsTerm m.prevLogTerm ∧
      (0 ≤ m.leaderCommit ∧ IsInt m.leaderCommit) ∧ ∀ e ∈ m.entries, IsTerm e.term
  | .appendEntriesResponse m => IsTerm m.term ∧ m.fromId = id ∧
    (0 ≤ m.lastLogIndex ∧ IsInt m.lastLogIndex)
  | .installSnapshotRequest m => IsTerm m.term ∧ IsInt m.fromId ∧
    (0 ≤ m.lastIncludedIndex ∧ IsInt m.lastIncludedIndex) ∧ IsTerm m.lastIncludedTerm
  | .installSnapshotResponse m => IsTerm m.term
  | _ => False

/-- The second message says what the first one does. -/
def SaysTheSame (file : Str) (id : Int) : RaftMessage → RaftMessage → Prop
  | .requestVoteRequest m, .requestVoteRequest q => q.term = m.term ∧ q.fromId = m.fromId ∧
    q.lastLogIndex = m.lastLogIndex ∧ q.lastLogTerm = m.lastLogTerm
  | .requestVoteResponse m, .requestVoteResponse q =>
    q.term = m.term ∧ q.voteGranted = m.voteGranted
  | .appendEntriesRequest m, .appendEntriesRequest q => q.term = m.term ∧
    q.fromId = m.fromId ∧ q.prevLogIndex = m.prevLogIndex ∧ q.prevLogTerm = m.prevLogTerm ∧
      q.leaderCommit = m.leaderCommit ∧
        q.entries.map RaftLogEntry.core = m.entries.map RaftLogEntry.core
  | .appendEntriesResponse m, .appendEntriesResponse q => q.term = m.term ∧
    q.fromId = m.fromId ∧ q.success = m.success ∧ q.lastLogIndex = m.lastLogIndex
  | .installSnapshotRequest m, .installSnapshotRequest q => q.term = m.term ∧
    q.fromId = m.fromId ∧ q.lastIncludedIndex = m.lastIncludedIndex ∧
      q.lastIncludedTerm = m.lastIncludedTerm ∧ q.snapshot = file
  | .installSnapshotResponse m, .installSnapshotResponse q =>
    q.term = m.term ∧ q.fromId = id
  | _, _ => False

/-- The message arrives as it was sent. -/
def Lossless (file : Str) (id : Int) (seq : Nat) (m : RaftMessage) : Prop :=
  ∃ q ∈ carry file id seq m, SaysTheSame file id m q

/-- The term of the previous entry fits into an `int`. -/
def PrevTermFits : RaftMessage → Prop
  | .appendEntriesRequest m => m.prevLogTerm < 2 ^ 31
  | _ => True

theorem core_handleEntry_sendEntry {e : RaftLogEntry} (h : IsTerm e.term) :
    (handleEntry (sendEntry e)).core = e.core := by
  show ({ term := toSize (toInt64 e.term), command := e.command } : RaftPersistLogEntry) = _
  rw [toSize_toInt64 h]
  rfl

theorem entries_survive {es : List RaftLogEntry} (h : ∀ e ∈ es, IsTerm e.term) :
    ((es.map sendEntry).map handleEntry).map RaftLogEntry.core = es.map RaftLogEntry.core := by
  rw [List.map_map, List.map_map]
  apply List.map_congr_left
  intro e he
  exact core_handleEntry_sendEntry (h e he)

/-- A message arrives as it was sent exactly if the term of its previous entry, where it
has one, fits into an `int`. -/
theorem lossless_iff (file : Str) (id : Int) (seq : Nat) (m : RaftMessage)
    (h : Emittable id m) : Lossless file id seq m ↔ PrevTermFits m := by
  unfold Lossless
  cases m with
  | requestVoteRequest m =>
    obtain ⟨ht, hf, hi, hlt⟩ := h
    refine ⟨fun _ => trivial, fun _ => ⟨_, rfl, ?_⟩⟩
    exact ⟨toSize_toInt64 ht, toInt_toInt64 hf, toInt_toInt64 hi.2, toSize_toInt64 hlt⟩
  | requestVoteResponse m =>
    exact ⟨fun _ => trivial, fun _ => ⟨_, rfl, toSize_toInt64 h, rfl⟩⟩
  | appendEntriesRequest m =>
    obtain ⟨ht, hf, hi, hpt, hc, hes⟩ := h
    constructor
    · rintro ⟨q, hq, hsame⟩
      obtain rfl := Option.some.inj hq
      exact (toSize_toInt_iff hpt).mp hsame.2.2.2.1
    · intro hfits
      refine ⟨_, rfl, toSize_toInt64 ht, toInt_toInt64 hf, toInt_toInt64 hi.2, ?_,
        toInt_toInt64 hc.2, entries_survive hes⟩
      exact (toSize_toInt_iff hpt).mpr hfits
  | appendEntriesResponse m =>
    obtain ⟨ht, hf, hi⟩ := h
    refine ⟨fun _ => trivial, fun _ => ⟨_, rfl, ?_⟩⟩
    exact ⟨toSize_toInt64 ht, hf.symm, rfl, toInt_toInt64 hi.2⟩
  | installSnapshotRequest m =>
    obtain ⟨ht, hf, hi, hit⟩ := h
    refine ⟨fun _ => trivial, fun _ => ⟨_, rfl, ?_⟩⟩
    exact ⟨toSize_toInt64 ht, toInt_toInt64 hf, toInt_toInt64 hi.2, toSize_toInt64 hit, rfl⟩
  | installSnapshotResponse m =>
    exact ⟨fun _ => trivial, fun _ => ⟨_, rfl, toSize_toInt64 h, rfl⟩⟩
  | _ => exact h.elim

/-- A heartbeat of node 0 with this term of the previous entry. -/
def heartbeatAt (prevLogTerm : Nat) : RaftMessage :=
  .appendEntriesRequest { term := 2 ^ 31, fromId := 0, toId := 1, prevLogIndex := 1,
                          prevLogTerm := prevLogTerm, leaderCommit := 0 }

theorem emittable_heartbeatAt {t : Nat} (h : t < 2 ^ 63) : Emittable 0 (heartbeatAt t) := by
  have hzero : IsInt 0 := ⟨by decide, by decide⟩
  have hone : IsInt 1 := ⟨by decide, by decide⟩
  have hterm : IsTerm (2 ^ 31) := Nat.pow_lt_pow_right (by decide) (by decide)
  exact ⟨hterm, hzero, ⟨Int.one_nonneg, hone⟩, h, ⟨Int.le_refl 0, hzero⟩, nofun⟩

theorem prevTerm_lost :
    ¬ ∀ (file : Str) (id : Int) (seq : Nat) (m : RaftMessage), Emittable id m →
      Lossless file id seq m := by
  intro h
  obtain ⟨q, hq, hsame⟩ := h [] 0 1 (heartbeatAt (2 ^ 31)) (emittable_heartbeatAt (by decide))
  obtain rfl := Option.some.inj hq
  exact absurd hsame.2.2.2.1 (by decide +kernel)

/-- A request that carries the entry of a write and a padding. -/
def writeSent : RaftMessage :=
  .appendEntriesRequest
    { term := 8, fromId := 0, toId := 1, prevLogIndex := 4, prevLogTerm := 7, leaderCommit := 3,
      entries := [{ term := 8, command := "put a 1".toList }, {}] }

theorem emittable_writeSent : Emittable 0 writeSent := by
  have hint : ∀ k : Nat, k < 5 → IsInt k := fun k hk => ⟨by omega, by omega⟩
  have hterm : ∀ t : Nat, t < 9 → IsTerm t := fun t ht => Nat.lt_of_lt_of_le ht (by decide)
  refine ⟨hterm 8 (by decide), hint 0 (by decide), ⟨by decide, hint 4 (by decide)⟩,
    hterm 7 (by decide), ⟨by decide, hint 3 (by decide)⟩, ?_⟩
  intro e he
  rcases List.mem_cons.mp he with rfl | he
  · exact hterm 8 (by decide)
  · rw [List.mem_singleton.mp he]
    exact hterm 0 (by decide)

theorem lossless_writeSent : Lossless [] 0 1 writeSent :=
  (lossless_iff [] 0 1 writeSent emittable_writeSent).mpr (show 7 < 2 ^ 31 by decide)

end Wire

end WWRaftKV
