/-
The data that travels between the Raft core, its clerk and the other nodes.

`Raft` and `RaftClerk` talk through two channels of `RaftMessage` values, one
for each direction.  The structures below carry the fields the source gives
them.  A field that a constructor of the source leaves unset (`seq` of an
outgoing request, `toId` of an incoming one) has a default here, and no function
of the model reads it before writing it.
-/
import Mathlib.Data.List.Sort

namespace WWRaftKV

/-! ## Scalars

`LogIndex` and `NodeId` are `int` in the source and `-1` is used as a mark, so
both are `Int` here.  `TermId` and `SequenceType` are unsigned counters and are
`Nat`. -/

/-- A byte string of the source, one `Char` for each `char`. -/
abbrev Str := List Char

/-! ## Log entries and the persist file -/

structure RaftLogEntry where
  uuid : Str := []
  sequenceId : Nat := 0
  term : Nat := 0
  command : Str := []
deriving DecidableEq, Repr, Inhabited

/-- `RaftPersistLogEntry`: the part of an entry that reaches the disk. -/
structure RaftPersistLogEntry where
  term : Nat := 0
  command : Str := []
deriving DecidableEq, Repr

/-- The term and the command of an entry.  The client's uuid and sequence number
stay on the node that accepted the write: neither the wire nor the disk carries
them. -/
def RaftLogEntry.core (e : RaftLogEntry) : RaftPersistLogEntry :=
  { term := e.term, command := e.command }

/-- The entry that the wire or the disk gives back. -/
def RaftPersistLogEntry.entry (e : RaftPersistLogEntry) : RaftLogEntry :=
  { term := e.term, command := e.command }

structure RaftPersistData where
  term : Nat := 0
  votedFor : Int := 0
  entries : List RaftPersistLogEntry := []
  lastIncludedIndex : Int := 0
  lastIncludedTerm : Nat := 0
deriving DecidableEq, Repr

/-! ## Messages -/

inductive OperationType
  | put
  | update
  | delete
  | get
deriving DecidableEq, Repr

structure RaftRequestVoteRequestMessage where
  seq : Nat := 0
  fromId : Int
  toId : Int := -1
  term : Nat
  lastLogIndex : Int
  lastLogTerm : Nat
deriving DecidableEq, Repr

structure RaftRequestVoteResponseMessage where
  seq : Nat := 0
  term : Nat
  voteGranted : Bool
deriving DecidableEq, Repr

structure RaftAppendEntriesRequestMessage where
  seq : Nat := 0
  term : Nat
  fromId : Int
  toId : Int := -1
  prevLogIndex : Int
  prevLogTerm : Nat
  leaderCommit : Int
  entries : List RaftLogEntry := []
deriving DecidableEq, Repr

/-- `lastLogIndex` is written on success only. -/
structure RaftAppendEntriesResponseMessage where
  seq : Nat := 0
  fromId : Int
  term : Nat
  success : Bool
  lastLogIndex : Int := 0
deriving DecidableEq, Repr

structure RaftInstallSnapshotRequestMessage where
  seq : Nat := 0
  term : Nat
  fromId : Int
  toId : Int := -1
  lastIncludedIndex : Int
  lastIncludedTerm : Nat
  snapshot : Str := []
deriving DecidableEq, Repr

/-- `fromId` is filled in by the clerk that receives the response. -/
structure RaftInstallSnapshotResponseMessage where
  seq : Nat := 0
  term : Nat
  fromId : Int := -1
deriving DecidableEq, Repr

structure KVOperationRequestMessage where
  seq : Nat := 0
  uuid : Str
  opType : OperationType
  key : Str
  value : Str
deriving DecidableEq, Repr

/-- `leaderId` is written on a refusal only, `opType` on an agreement only. -/
structure KVOperationResponseMessage where
  seq : Nat := 0
  uuid : Str
  leaderId : Int := -1
  opType : OperationType := .put
  key : Str
  value : Str
  success : Bool
deriving DecidableEq, Repr

structure ApplyCommitLogsRequestMessage where
  lastCommitIndex : Int
  entries : List RaftLogEntry := []
deriving DecidableEq, Repr

structure ApplyCommitLogsResponseMessage where
  lastCommitIndex : Int
deriving DecidableEq, Repr

structure GenerateSnapshotRequestMessage where
  lastAppliedIndex : Int
  lastAppliedTerm : Nat
deriving DecidableEq, Repr

structure GenerateSnapshotResponseMessage where
  lastAppliedIndex : Int
  lastAppliedTerm : Nat
deriving DecidableEq, Repr

structure ApplySnapshotRequestMessage where
  seq : Nat := 0
  lastIncludedIndex : Int
  lastIncludedTerm : Nat
  snapshot : Str := []
deriving DecidableEq, Repr

structure ApplySnapshotResponseMessage where
  seq : Nat := 0
  lastIncludedIndex : Int
  lastIncludedTerm : Nat
deriving DecidableEq, Repr

/-- A message of either channel, tagged with its type as `RaftMessage::type`
does. -/
inductive RaftMessage
  | requestVoteRequest (m : RaftRequestVoteRequestMessage)
  | requestVoteResponse (m : RaftRequestVoteResponseMessage)
  | appendEntriesRequest (m : RaftAppendEntriesRequestMessage)
  | appendEntriesResponse (m : RaftAppendEntriesResponseMessage)
  | installSnapshotRequest (m : RaftInstallSnapshotRequestMessage)
  | installSnapshotResponse (m : RaftInstallSnapshotResponseMessage)
  | kvOperationRequest (m : KVOperationRequestMessage)
  | kvOperationResponse (m : KVOperationResponseMessage)
  | applyCommitLogsRequest (m : ApplyCommitLogsRequestMessage)
  | applyCommitLogsResponse (m : ApplyCommitLogsResponseMessage)
  | generateSnapshotRequest (m : GenerateSnapshotRequestMessage)
  | generateSnapshotResponse (m : GenerateSnapshotResponseMessage)
  | applySnapshotRequest (m : ApplySnapshotRequestMessage)
  | applySnapshotResponse (m : ApplySnapshotResponseMessage)
  | shutdown
deriving DecidableEq, Repr

end WWRaftKV
