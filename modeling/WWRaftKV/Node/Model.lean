/-
One process: a core, its clerk and the two channels between them.

The core takes messages from `_Outter_channel` and pushes into `_Inner_channel`.  The
clerk takes those, answers the local ones, sends the others over the wire, and writes
the responses into the closures that the requests of the peers have left in
`_Pending_requests`.  Each event below is one atomic step of one of the threads.

A message carries the number of the request it goes back to.  The source has no such
field: it is there to say which closure a response belongs to.
-/
import Mathlib.Logic.Function.Basic
import WWRaftKV.General.Run
import WWRaftKV.Core.Handlers

namespace WWRaftKV

/-- What the clerk hands back for a local request.  A failure is reported with
the index `-1` and the term `0`. -/
def clerkAnswer (succeeds : Bool) : RaftMessage → Option RaftMessage
  | .applyCommitLogsRequest m =>
    some (.applyCommitLogsResponse { lastCommitIndex := m.lastCommitIndex })
  | .generateSnapshotRequest m =>
    some (.generateSnapshotResponse
      (if succeeds then
        { lastAppliedIndex := m.lastAppliedIndex, lastAppliedTerm := m.lastAppliedTerm }
      else { lastAppliedIndex := -1, lastAppliedTerm := 0 }))
  | .applySnapshotRequest m =>
    some (.applySnapshotResponse
      (if succeeds then
        { seq := m.seq
          lastIncludedIndex := m.lastIncludedIndex
          lastIncludedTerm := m.lastIncludedTerm }
      else { seq := m.seq, lastIncludedIndex := -1, lastIncludedTerm := 0 }))
  | _ => none

/-! ## What a step of a core has done -/

/-- One atomic step of one core, as the run has seen it. -/
structure CoreStep where
  node : Int
  pre : Raft
  post : Raft
  pushed : List RaftMessage
deriving DecidableEq, Repr

/-- The entries of a request with their indices.  The loop of `_ApplyCommitLogs` ends at
the commit index, so they are those right below it. -/
def ApplyCommitLogsRequestMessage.indexed (m : ApplyCommitLogsRequestMessage) :
    List (Int × RaftLogEntry) :=
  m.entries.mapIdx fun (k : Nat) e => (m.lastCommitIndex - m.entries.length + 1 + k, e)

/-- What is handed to the clerk by these messages. -/
def handedBy (ms : List RaftMessage) : List (Int × RaftLogEntry) :=
  ms.flatMap fun x => match x with
    | .applyCommitLogsRequest m => m.indexed
    | _ => []

/-- What the node hands to its clerk in this step. -/
def CoreStep.handed (s : CoreStep) : List (Int × RaftLogEntry) := handedBy s.pushed

/-! ## Messages of a process -/

/-- A request of a peer under the sequence id that the peer's channel gave it. -/
def RaftMessage.withSeq (n : Nat) : RaftMessage → Option RaftMessage
  | .requestVoteRequest m => some (.requestVoteRequest { m with seq := n })
  | .appendEntriesRequest m => some (.appendEntriesRequest { m with seq := n })
  | .installSnapshotRequest m => some (.installSnapshotRequest { m with seq := n })
  | _ => none

/-- A message that answers a call of this node. -/
def RaftMessage.isPeerResponse : RaftMessage → Bool
  | .requestVoteResponse _ => true
  | .appendEntriesResponse _ => true
  | .installSnapshotResponse _ => true
  | _ => false

/-- The sequence id under which the clerk looks for the closure of a response. -/
def RaftMessage.replySeq : RaftMessage → Option Nat
  | .requestVoteResponse m => some m.seq
  | .appendEntriesResponse m => some m.seq
  | .installSnapshotResponse m => some m.seq
  | _ => none

/-- A message in a channel, and the request that it goes back to. -/
structure Item where
  msg : RaftMessage
  cause : Option Nat := none
deriving DecidableEq, Repr

/-- A response has been written: into which closure, and whose response it was. -/
structure Reply where
  cause : Option Nat
  closure : Option Nat
deriving DecidableEq, Repr

/-! ## The process -/

/-- `requests` counts the requests of peers so far; the closure of a request has its
number.  `sequenceIds` holds the next id of the channel of each peer. -/
structure Process where
  raft : Raft
  alive : Bool
  inner : List Item
  outter : List Item
  file : Option RaftPersistData
  pendingRequests : Nat → Option Nat
  sequenceIds : Nat → Nat
  requests : Nat
  replies : List Reply
  history : List CoreStep

inductive Event
  /-- the election timer fires -/
  | electionTimeout
  /-- the heartbeat timer fires -/
  | heartbeatTimeout
  /-- the core takes the next message of `_Outter_channel` -/
  | handle
  /-- a request arrives on a connection -/
  | request (conn : Nat) (m : RaftMessage)
  /-- a request of this connection does not arrive -/
  | lostRequest (conn : Nat)
  /-- the response to a call of this node arrives -/
  | response (m : RaftMessage)
  /-- a client operation arrives -/
  | operation (m : KVOperationRequestMessage)
  /-- the clerk takes the next message of `_Inner_channel` -/
  | clerk (succeeds : Bool)
deriving DecidableEq, Repr

/-- A fresh `Raft` object after `loadPersist`, which fails when there is no file. -/
def restart (id : Int) (ids : List Int) : Option RaftPersistData → Raft
  | none => Raft.make id ids
  | some d => (Raft.make id ids).loadPersist d

namespace Process

def init (id : Int) (ids : List Int) (file : Option RaftPersistData) : Process where
  raft := restart id ids file
  alive := true
  inner := []
  outter := []
  file := file
  pendingRequests := fun _ => none
  sequenceIds := fun _ => 1
  requests := 0
  replies := []
  history := []

/-- One atomic step of the core.  Writes of the persist file succeed, and an exception
ends the process. -/
def react (p : Process) (i : Input) (cause : Option Nat) : Process :=
  let x := p.raft.react i
  { p with
    raft := x.raft
    alive := !x.thrown
    inner := p.inner ++ x.pushed.map fun m => { msg := m, cause := cause }
    file := x.persisted.getLast?.or p.file
    history := p.history ++
      [{ node := p.raft.id, pre := p.raft, post := x.raft, pushed := x.pushed }] }

/-- `_HandleRequestVoteRequest` and its two siblings in the clerk. -/
def register (p : Process) (conn : Nat) (m : RaftMessage) : Process :=
  let n := p.sequenceIds conn
  { p with
    outter := p.outter ++ [{ msg := m, cause := some p.requests }]
    pendingRequests := Function.update p.pendingRequests n (some p.requests)
    sequenceIds := Function.update p.sequenceIds conn (n + 1)
    requests := p.requests + 1 }

/-- `_SendRequestVoteResponse` and its two siblings.  `std::map::operator[]` yields a
null pointer for an absent id, and the read through it ends the process. -/
def reply (p : Process) (seq : Nat) (cause : Option Nat) : Process :=
  { p with
    alive := (p.pendingRequests seq).isSome
    pendingRequests := Function.update p.pendingRequests seq none
    replies := p.replies ++ [{ cause := cause, closure := p.pendingRequests seq }] }

/-- `RaftClerk::_HandleMessage`. -/
def serve (p : Process) (succeeds : Bool) (x : Item) : Process :=
  match x.msg.replySeq with
  | some seq => p.reply seq x.cause
  | none => match clerkAnswer succeeds x.msg with
    | some m => { p with outter := p.outter ++ [{ x with msg := m }] }
    | none => p

def stepAlive (p : Process) : Event → Option Process
  | .electionTimeout => some (p.react .electionTimeout none)
  | .heartbeatTimeout => some (p.react .heartbeatTimeout none)
  | .handle => match p.outter with
    | [] => none
    | x :: xs => some ({ p with outter := xs }.react (.message x.msg) x.cause)
  | .request conn m => (m.withSeq (p.sequenceIds conn)).map (p.register conn)
  | .lostRequest conn => some { p with
      sequenceIds := Function.update p.sequenceIds conn (p.sequenceIds conn + 1) }
  | .response m =>
    if m.isPeerResponse then some { p with outter := p.outter ++ [{ msg := m }] } else none
  | .operation m =>
    some { p with outter := p.outter ++ [{ msg := .kvOperationRequest m }] }
  | .clerk succeeds => match p.inner with
    | [] => none
    | x :: xs => some ({ p with inner := xs }.serve succeeds x)

def step (p : Process) (e : Event) : Option Process :=
  if p.alive then p.stepAlive e else none

/-- What the core handles in this event. -/
def turn (p : Process) : Event → Option Input
  | .electionTimeout => some .electionTimeout
  | .heartbeatTimeout => some .heartbeatTimeout
  | .handle => match p.outter with
    | [] => none
    | x :: _ => some (.message x.msg)
  | _ => none

/-- A condition on what the core handles next, in the state before it does. -/
def Obeys (ok : Raft → Input → Prop) (p : Process) (e : Event) : Prop :=
  ∀ i ∈ p.turn e, ok p.raft i

instance (ok : Raft → Input → Prop) [∀ r i, Decidable (ok r i)] (p : Process) (e : Event) :
    Decidable (p.Obeys ok e) := by
  unfold Obeys
  infer_instance

/-- The core may handle anything. -/
def anyInput : Raft → Input → Prop := fun _ _ => True

instance (r : Raft) (i : Input) : Decidable (anyInput r i) :=
  inferInstanceAs (Decidable True)

/-- A run of one process from its start, with a condition on every event. -/
def Reaches (ok : Process → Event → Prop) (id : Int) (ids : List Int)
    (file : Option RaftPersistData) (p : Process) : Prop :=
  ∃ es, Transition.Run step ok (init id ids file) es p

/-- A run found by evaluation. -/
theorem Reaches.of_exec (ok : Process → Event → Prop) [∀ p e, Decidable (ok p e)] (id : Int)
    (ids : List Int) (file : Option RaftPersistData) (es : List Event) (q : Process → Bool)
    (h : (Transition.exec step ok (init id ids file) es).map q = some true) :
    ∃ p, Reaches ok id ids file p ∧ q p = true := by
  obtain ⟨p, hr, hp⟩ := Transition.Run.exists_of_exec h
  exact ⟨p, ⟨es, hr⟩, hp⟩

/-- The states of a node over all its lives: it starts without a file, and again from the
file that the process before it has left behind. -/
inductive Lives (ok : Process → Event → Prop) (id : Int) (ids : List Int) : Process → Prop
  | first {p : Process} (hr : Reaches ok id ids none p) : Lives ok id ids p
  | again {q p : Process} (hq : Lives ok id ids q) (hr : Reaches ok id ids q.file p) :
    Lives ok id ids p

/-- All messages between the core and the clerk. -/
def channel (p : Process) : List RaftMessage := (p.inner ++ p.outter).map (·.msg)

/-- What the core has handed to the clerk in the run. -/
def handed (p : Process) : List (Int × RaftLogEntry) := p.history.flatMap CoreStep.handed

end Process

end WWRaftKV
