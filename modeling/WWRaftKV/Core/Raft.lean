/-
The Raft core: the state of `class Raft` and its handlers.

A handler is a command over the fields of one node.  Its effects, the messages
it pushes into `_Inner_channel` and its calls of `_Persist`, are kept in program
order: whether a vote is in the file before its answer is sent, what a crash
between two writes leaves and in which order entries are handed over depend on
it.  `std::vector::at` and
`_GetLogAt` may throw `std::out_of_range`.  The state at the throw is kept,
because no handler catches the exception and the fields written before it stay
written.

The two timers read a clock, which is not modelled: `electionTimeout` and
`heartbeatTimeout` may fire at any moment, with the role test that `_RaftLoop`
makes.
-/
import Mathlib.Tactic.Simps.Basic
import WWRaftKV.Core.Message

namespace WWRaftKV

/-! ## Peers -/

structure RaftPeer where
  id : Int
  nextIndex : Int := 1
  matchIndex : Int := 0
deriving DecidableEq, Repr

namespace RaftPeer

@[simps]
def setNextIndex (p : RaftPeer) (i : Int) : RaftPeer := { p with nextIndex := i }

@[simps]
def setMatchIndex (p : RaftPeer) (i : Int) : RaftPeer := { p with matchIndex := i }

/-- Both indices after an acknowledgement up to `i`. -/
def setProgress (i : Int) (p : RaftPeer) : RaftPeer :=
  (p.setNextIndex (i + 1)).setMatchIndex i

end RaftPeer

/-! ## The state -/

inductive RaftRole
  | follower
  | candidate
  | leader
deriving DecidableEq, Repr

structure Raft where
  id : Int
  role : RaftRole
  term : Nat
  voteCount : Nat
  votedFor : Int
  leaderId : Int
  logs : List RaftLogEntry
  baseIndex : Int
  lastLogIndex : Int
  lastLogTerm : Nat
  lastIncludedIndex : Int
  lastIncludedTerm : Nat
  lastCommitIndex : Int
  lastAppliedIndex : Int
  isApplying : Bool
  isSnapshoting : Bool
  peers : List RaftPeer
  running : Bool
deriving DecidableEq, Repr

namespace Raft

/-- The constructor.  `RaftClerk` builds the peer list from the node ids. -/
def make (id : Int) (ids : List Int) : Raft where
  id := id
  role := .follower
  term := 0
  voteCount := 0
  votedFor := -1
  leaderId := -1
  logs := []
  baseIndex := 1
  lastLogIndex := 0
  lastLogTerm := 0
  lastIncludedIndex := 0
  lastIncludedTerm := 0
  lastCommitIndex := 0
  lastAppliedIndex := 0
  isApplying := false
  isSnapshoting := false
  peers := ids.map fun i => { id := i }
  running := true

/-! ## Reading the log -/

/-- `_Logs.at(i)`: the subtraction that yields `i` is signed, and a negative
result becomes a huge unsigned index, so it is out of range as well. -/
def logsAt (r : Raft) (i : Int) : Option RaftLogEntry :=
  if i < 0 then none else r.logs[i.toNat]?

/-- `_GetTermAt`.  `none` is the throw of `_Logs.at`. -/
def getTermAt (r : Raft) (index : Int) : Option Nat :=
  if index = r.lastIncludedIndex then some r.lastIncludedTerm
  else if index < r.baseIndex ∨ index > r.lastLogIndex then some 0
  else (r.logsAt (index - r.baseIndex)).map (·.term)

def logUpToDate (r : Raft) (lastIndex : Int) (lastTerm : Nat) : Bool :=
  if lastTerm ≠ r.lastLogTerm then lastTerm > r.lastLogTerm
  else lastIndex ≥ r.lastLogIndex

/-- `_LogMatch`.  `none` is the throw of `_Logs.at` inside `_GetTermAt`. -/
def logMatch (r : Raft) (index : Int) (term : Nat) : Option Bool :=
  if index = 0 then some true
  else if index = r.lastIncludedIndex then some (r.lastIncludedTerm == term)
  else if index < r.baseIndex ∨ index > r.lastLogIndex then some false
  else (r.getTermAt index).map (· == term)

/-- `_GetLogAt`. -/
def getLogAt (r : Raft) (index : Int) : Option RaftLogEntry :=
  if index < r.baseIndex ∨ index > r.lastLogIndex then none
  else r.logsAt (index - r.baseIndex)

/-- `_GetLogFrom`. -/
def getLogFrom (r : Raft) (index : Int) : List RaftLogEntry :=
  if index < r.baseIndex ∨ index > r.lastLogIndex then []
  else r.logs.drop (index - r.baseIndex).toNat

/-! ## Assignments

Each update below is a group of assignments that the source makes together.  The
`simps` lemmas read every field back, so that no proof opens the record. -/

@[simps]
def toFollower (leaderId : Int) (leaderTerm : Nat) (r : Raft) : Raft :=
  { r with role := .follower, term := leaderTerm, leaderId := leaderId, votedFor := -1 }

@[simps]
def toCandidate (r : Raft) : Raft :=
  { r with role := .candidate, term := r.term + 1, votedFor := r.id, voteCount := 1 }

@[simps]
def toLeader (r : Raft) : Raft :=
  { r with role := .leader, leaderId := r.id, voteCount := 0, votedFor := -1 }

@[simps]
def setPeers (peers : List RaftPeer) (r : Raft) : Raft := { r with peers := peers }

@[simps]
def setVotedFor (id : Int) (r : Raft) : Raft := { r with votedFor := id }

@[simps]
def countVote (r : Raft) : Raft := { r with voteCount := r.voteCount + 1 }

@[simps]
def setLastCommitIndex (i : Int) (r : Raft) : Raft := { r with lastCommitIndex := i }

@[simps]
def setLastAppliedIndex (i : Int) (r : Raft) : Raft := { r with lastAppliedIndex := i }

@[simps]
def setIsApplying (b : Bool) (r : Raft) : Raft := { r with isApplying := b }

@[simps]
def setIsSnapshoting (b : Bool) (r : Raft) : Raft := { r with isSnapshoting := b }

@[simps]
def setLastIncluded (i : Int) (t : Nat) (r : Raft) : Raft :=
  { r with lastIncludedIndex := i, lastIncludedTerm := t }

@[simps]
def setRunning (b : Bool) (r : Raft) : Raft := { r with running := b }

/-- `_Logs.emplace_back` for every entry. -/
@[simps]
def appendLogs (entries : List RaftLogEntry) (r : Raft) : Raft :=
  { r with logs := r.logs ++ entries }

/-- The last index and term read off the vector after an append. -/
@[simps]
def refreshLast (r : Raft) : Raft :=
  { r with
    lastLogIndex := r.baseIndex + r.logs.length - 1
    lastLogTerm := (r.logs.getLast?.map (·.term)).getD 0 }

/-- The last index and term after a client write. -/
@[simps]
def advanceLast (r : Raft) : Raft :=
  { r with lastLogIndex := r.lastLogIndex + 1, lastLogTerm := r.term }

/-! ## Truncation -/

/-- `std::vector::resize`, which pads with default entries when it grows. -/
def resizeLogs (logs : List RaftLogEntry) (n : Nat) : List RaftLogEntry :=
  logs.take n ++ List.replicate (n - logs.length) default

@[simps]
def setLogs (logs : List RaftLogEntry) (r : Raft) : Raft := { r with logs := logs }

/-- `_TruncateAfter`.  It shortens the vector and leaves `_Last_log_index` and
`_Last_log_term` as they are. -/
def truncateAfter (index : Int) (r : Raft) : Raft :=
  if index < r.baseIndex ∨ index > r.lastLogIndex then r
  else r.setLogs (resizeLogs r.logs (index - r.baseIndex).toNat)

/-- The erase and the new base of `_TruncateBefore`. -/
@[simps]
def dropTo (index : Int) (r : Raft) : Raft :=
  { r with logs := r.logs.drop (index - r.baseIndex).toNat, baseIndex := index }

/-- `_TruncateBefore`. -/
def truncateBefore (index : Int) (r : Raft) : Raft :=
  if index ≤ r.baseIndex ∨ index > r.lastLogIndex + 1 then r else r.dropTo index

theorem truncateAfter_eq (index : Int) (r : Raft) :
    r.truncateAfter index = r.setLogs (r.truncateAfter index).logs := by
  unfold truncateAfter
  split <;> rfl

@[simp] theorem truncateAfter_baseIndex (index : Int) (r : Raft) :
    (r.truncateAfter index).baseIndex = r.baseIndex :=
  (congrArg Raft.baseIndex (truncateAfter_eq index r) :)

@[simp] theorem truncateAfter_lastIncludedIndex (index : Int) (r : Raft) :
    (r.truncateAfter index).lastIncludedIndex = r.lastIncludedIndex :=
  (congrArg Raft.lastIncludedIndex (truncateAfter_eq index r) :)

@[simp] theorem truncateAfter_lastAppliedIndex (index : Int) (r : Raft) :
    (r.truncateAfter index).lastAppliedIndex = r.lastAppliedIndex :=
  (congrArg Raft.lastAppliedIndex (truncateAfter_eq index r) :)

@[simp] theorem truncateAfter_lastCommitIndex (index : Int) (r : Raft) :
    (r.truncateAfter index).lastCommitIndex = r.lastCommitIndex :=
  (congrArg Raft.lastCommitIndex (truncateAfter_eq index r) :)

@[simp] theorem truncateAfter_isApplying (index : Int) (r : Raft) :
    (r.truncateAfter index).isApplying = r.isApplying :=
  (congrArg Raft.isApplying (truncateAfter_eq index r) :)

@[simp] theorem truncateAfter_isSnapshoting (index : Int) (r : Raft) :
    (r.truncateAfter index).isSnapshoting = r.isSnapshoting :=
  (congrArg Raft.isSnapshoting (truncateAfter_eq index r) :)

/-- The vector ends right in front of the index, and a lookup there throws. -/
theorem getTermAt_truncateAfter {index : Int} {r : Raft}
    (hin : ¬ (index < r.baseIndex ∨ index > r.lastLogIndex))
    (hne : index ≠ r.lastIncludedIndex) : (r.truncateAfter index).getTermAt index = none := by
  have hlen : (resizeLogs r.logs (index - r.baseIndex).toNat).length =
      (index - r.baseIndex).toNat := by
    rw [resizeLogs, List.length_append, List.length_take, List.length_replicate]
    omega
  rw [truncateAfter, if_neg hin]
  unfold getTermAt logsAt
  rw [setLogs_lastIncludedIndex, if_neg hne, setLogs_baseIndex, setLogs_lastLogIndex,
    if_neg hin, if_neg (by omega), setLogs_logs, List.getElem?_eq_none (Nat.le_of_eq hlen)]
  rfl

theorem truncateBefore_eq (index : Int) (r : Raft) :
    r.truncateBefore index =
      { r with logs := (r.truncateBefore index).logs
               baseIndex := (r.truncateBefore index).baseIndex } := by
  unfold truncateBefore
  split <;> rfl

@[simp] theorem truncateBefore_lastLogIndex (index : Int) (r : Raft) :
    (r.truncateBefore index).lastLogIndex = r.lastLogIndex :=
  (congrArg Raft.lastLogIndex (truncateBefore_eq index r) :)

@[simp] theorem truncateBefore_lastAppliedIndex (index : Int) (r : Raft) :
    (r.truncateBefore index).lastAppliedIndex = r.lastAppliedIndex :=
  (congrArg Raft.lastAppliedIndex (truncateBefore_eq index r) :)

@[simp] theorem truncateBefore_lastCommitIndex (index : Int) (r : Raft) :
    (r.truncateBefore index).lastCommitIndex = r.lastCommitIndex :=
  (congrArg Raft.lastCommitIndex (truncateBefore_eq index r) :)

@[simp] theorem truncateBefore_isApplying (index : Int) (r : Raft) :
    (r.truncateBefore index).isApplying = r.isApplying :=
  (congrArg Raft.isApplying (truncateBefore_eq index r) :)

@[simp] theorem truncateBefore_isSnapshoting (index : Int) (r : Raft) :
    (r.truncateBefore index).isSnapshoting = r.isSnapshoting :=
  (congrArg Raft.isSnapshoting (truncateBefore_eq index r) :)

/-! ## The commit rule -/

/-- The value `majority_match`: the leader's own last index and every stored
match index, sorted, read at half the count.  The position is always in range,
because the list is never empty. -/
def majorityMatch (r : Raft) : Int :=
  let matchIndexes := r.lastLogIndex :: r.peers.map (·.matchIndex)
  let sorted := matchIndexes.insertionSort (· ≤ ·)
  sorted.getD (sorted.length / 2) 0

/-- The persist file `_Persist` writes. -/
def persistData (r : Raft) : RaftPersistData where
  term := r.term
  votedFor := r.votedFor
  entries := r.logs.map RaftLogEntry.core
  lastIncludedIndex := r.lastIncludedIndex
  lastIncludedTerm := r.lastIncludedTerm

/-- `loadPersist` on a fresh object, once the file has been parsed. -/
def loadPersist (r : Raft) (d : RaftPersistData) : Raft :=
  let r := { r with
    term := d.term
    votedFor := d.votedFor
    lastIncludedIndex := d.lastIncludedIndex
    lastIncludedTerm := d.lastIncludedTerm
    logs := r.logs ++ d.entries.map RaftPersistLogEntry.entry }
  let r := { r with baseIndex := r.lastIncludedIndex + 1 }
  let r := { r with lastLogIndex := r.baseIndex + r.logs.length - 1 }
  { r with
    lastLogTerm := (r.getTermAt r.lastLogIndex).getD 0
    lastCommitIndex := r.lastIncludedIndex
    lastAppliedIndex := r.lastIncludedIndex }

end Raft

end WWRaftKV
