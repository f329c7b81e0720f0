/-
The clerk of a process: its store, its snapshot file and the closures of its clients.

`Process` says which messages the clerk and the core exchange.  Here the clerk also does
what they ask for: it applies entries, answers clients, writes and ships snapshots.

An operation of a client has a number, and so has its closure.  Both channels are queues,
so the operation that a message of the core belongs to is the next one in order.
-/
import WWRaftKV.Core.Places
import WWRaftKV.Node.Model
import WWRaftKV.Store.Replica

namespace WWRaftKV

/-- A request as the wire delivers it. -/
def RaftMessage.fromWire : RaftMessage → RaftMessage
  | .appendEntriesRequest m =>
    .appendEntriesRequest { m with entries := m.entries.map fun e => e.core.entry }
  | m => m

/-- `SerializeToString` and `ParseFromString` of `RaftSnapshotData`. -/
structure SnapshotCodec where
  serialize : List (Str × Str) → Str
  parse : Str → Option (List (Str × Str))

/-! ## What the statements speak about -/

/-- An entry that an operation has put into the log: its place in the vector, and how many
entries had been handed to the clerk by then. -/
structure Write where
  operation : Nat
  index : Int
  entry : RaftLogEntry
  since : Nat
deriving DecidableEq, Repr

/-- A response has been written: whose it was, and into which closure. -/
structure Answer where
  cause : Option Nat
  closure : Nat
  status : StatusCode
  payload : Str
deriving DecidableEq, Repr

/-- A snapshot that has been written or shipped under this label. -/
structure Labelled where
  index : Int
  term : Nat
  data : Str
deriving DecidableEq, Repr

/-! ## The clerk -/

/-- `addresses` holds `_Peers`: ip and port of the client service of each node.  The fields
from `operations` on are there for the statements. -/
structure RaftClerk where
  process : Process
  alive : Bool
  addresses : List Str
  kvStore : StrStore
  snapshotFile : Option Str
  pendingKvRequests : Str × Nat → Option Nat
  operations : Nat
  handled : Nat
  responding : List Nat
  writes : List Write
  applied : List (Int × RaftLogEntry)
  answers : List Answer
  misses : List (Str × Nat)
  written : List Labelled
  shipped : List Labelled

inductive ClerkEvent
  | electionTimeout
  | heartbeatTimeout
  | handle
  | request (conn : Nat) (m : RaftMessage)
  | lostRequest (conn : Nat)
  | response (m : RaftMessage)
  | operation (m : KVOperationRequestMessage)
  /-- the clerk takes the next message; whether a file opens, and the level draws -/
  | clerk (opens : Bool) (draws : List (List Bool))
deriving DecidableEq, Repr

/-- What the event is for the process. -/
def ClerkEvent.event (succeeds : Bool) : ClerkEvent → Event
  | .electionTimeout => .electionTimeout
  | .heartbeatTimeout => .heartbeatTimeout
  | .handle => .handle
  | .request conn m => .request conn m.fromWire
  | .lostRequest conn => .lostRequest conn
  | .response m => .response m
  | .operation m => .operation m
  | .clerk _ _ => .clerk succeeds

namespace RaftClerk

/-! ### Clients -/

/-- `_HandleKVOperationRequest`: the closure is registered. -/
def register (c : RaftClerk) (m : KVOperationRequestMessage) : RaftClerk :=
  { c with
    pendingKvRequests := Function.update c.pendingKvRequests (m.uuid, m.seq) (some c.operations)
    operations := c.operations + 1 }

/-- The core takes the next operation: it is to be answered, or it has become an entry. -/
def note (c : RaftClerk) (m : KVOperationRequestMessage) : RaftClerk :=
  match c.process.raft.writeOf m with
  | some entry => { c with
    handled := c.handled + 1
    writes := { operation := c.handled
                index := c.process.raft.nextPlace
                entry := entry
                since := c.process.handed.length } :: c.writes }
  | none => { c with
    handled := c.handled + 1
    responding := c.responding ++ [c.handled] }

/-- The process ends. -/
def dies (c : RaftClerk) : RaftClerk := { c with alive := false }

/-- The closure is looked up, run and erased.  An absent one is a null pointer, and the
read through it ends the process. -/
def answer (c : RaftClerk) (key : Str × Nat) (cause : Option Nat) (status : StatusCode)
    (payload : Str) : RaftClerk :=
  match c.pendingKvRequests key with
  | some closure => { c with
    pendingKvRequests := Function.update c.pendingKvRequests key none
    answers := c.answers ++
      [{ cause := cause, closure := closure, status := status, payload := payload }] }
  | none => { c.dies with misses := c.misses ++ [key] }

/-- The address for a redirect.  `_Peers[leader_id]` is undefined outside of the vector, and
so is the text of the warning, which adds `leader_id` to a pointer into 30 characters. -/
def redirect (c : RaftClerk) (leaderId : Int) : Option Str :=
  if 0 ≤ leaderId ∧ leaderId ≤ 30 then c.addresses[leaderId.toNat]? else none

/-- `_SendKVOperationResponse`. -/
def sendKVOperationResponse (c : RaftClerk) (m : KVOperationResponseMessage)
    (draws : List Bool) : RaftClerk :=
  let cause := c.responding.head?
  let c := { c with responding := c.responding.tail }
  if (c.pendingKvRequests (m.uuid, m.seq)).isNone then
    c.answer (m.uuid, m.seq) cause .default []
  else if m.success then
    match m.opType with
    | .get => match sendGet c.kvStore m.key draws with
      | some ((status, payload), s) =>
        { c with kvStore := s }.answer (m.uuid, m.seq) cause status payload
      | none => c.dies
    | _ => c.answer (m.uuid, m.seq) cause .default []
  else match c.redirect m.leaderId with
    | some address => c.answer (m.uuid, m.seq) cause .redirect address
    | none => c.dies

/-- The operation that has put this entry there, the last one if there are several. -/
def writer (c : RaftClerk) (x : Int × RaftLogEntry) : Option Nat :=
  (c.writes.find? fun w => w.index = x.1 ∧ w.entry = x.2).map (·.operation)

/-! ### Applying -/

/-- One entry in the loop of `_ApplyCommitLogs`. -/
def applyEntry (c : RaftClerk) (x : Int × RaftLogEntry) (draws : List Bool) : RaftClerk :=
  match applyCommand c.kvStore x.2.command draws with
  | some (status, s) =>
    let c := { c with kvStore := s, applied := c.applied ++ [x] }
    if x.2.uuid ≠ [] ∧ x.2.sequenceId ≠ 0 then
      c.answer (x.2.uuid, x.2.sequenceId) (c.writer x) status []
    else c
  | none => c.dies

/-- The loop of `_ApplyCommitLogs`. -/
def applyLoop : List (Int × RaftLogEntry) → List (List Bool) → RaftClerk → RaftClerk
  | [], _, c => c
  | x :: xs, draws, c =>
    let c := c.applyEntry x (draws.headD [])
    if c.alive then applyLoop xs draws.tail c else c

/-! ### Snapshots -/

/-- The entries of a snapshot are put into the store. -/
def installEntries : List (Str × Str) → List (List Bool) → StrStore → Option StrStore
  | [], _, s => some s
  | (key, value) :: rest, draws, s => do
    let (_, s) ← KVStore.update s key value (draws.headD [])
    installEntries rest draws.tail s

/-- `_GenerateSnapshot`, and whether it succeeds. -/
def generateSnapshot (codec : SnapshotCodec) (c : RaftClerk) (opens : Bool)
    (m : GenerateSnapshotRequestMessage) : Bool × RaftClerk :=
  match KVStore.pairs c.kvStore with
  | some ps =>
    if opens then
      let data := codec.serialize ps
      (true, { c with
        snapshotFile := some data
        written := c.written ++
          [{ index := m.lastAppliedIndex, term := m.lastAppliedTerm, data := data }] })
    else (false, c)
  | none => (false, c.dies)

/-- `_ApplySnapshot`, and whether it succeeds. -/
def applySnapshot (codec : SnapshotCodec) (c : RaftClerk) (opens : Bool)
    (draws : List (List Bool)) (m : ApplySnapshotRequestMessage) : Bool × RaftClerk :=
  if opens then
    let c := { c with snapshotFile := some m.snapshot }
    match codec.parse m.snapshot with
    | some ps => match c.kvStore.clear.bind (installEntries ps draws) with
      | some s => (true, { c with kvStore := s })
      | none => (false, c.dies)
    | none => (false, c)
  else (false, c)

/-- `_SendInstallSnapshotRequest`. -/
def sendInstallSnapshotRequest (c : RaftClerk) (opens : Bool)
    (m : RaftInstallSnapshotRequestMessage) : RaftClerk :=
  match c.snapshotFile with
  | some data =>
    if opens then
      { c with shipped := c.shipped ++
          [{ index := m.lastIncludedIndex, term := m.lastIncludedTerm, data := data }] }
    else c
  | none => c

/-! ### Steps -/

/-- What the clerk does for a message, and what it reports about it. -/
def attend (codec : SnapshotCodec) (c : RaftClerk) (opens : Bool) (draws : List (List Bool)) :
    RaftMessage → Bool × RaftClerk
  | .kvOperationResponse m => (true, c.sendKVOperationResponse m (draws.headD []))
  | .applyCommitLogsRequest m => (true, applyLoop m.indexed draws c)
  | .generateSnapshotRequest m => c.generateSnapshot codec opens m
  | .applySnapshotRequest m => c.applySnapshot codec opens draws m
  | .installSnapshotRequest m => (true, c.sendInstallSnapshotRequest opens m)
  | _ => (true, c)

/-- What an event of the other threads changes in the clerk. -/
def observe (c : RaftClerk) : ClerkEvent → RaftClerk
  | .operation m => c.register m
  | .handle => match c.process.outter with
    | { msg := .kvOperationRequest m, .. } :: _ => c.note m
    | _ => c
  | _ => c

/-- The clerk's part of an event, and what it reports. -/
def work (codec : SnapshotCodec) (c : RaftClerk) : ClerkEvent → Bool × RaftClerk
  | .clerk opens draws => match c.process.inner with
    | x :: _ => c.attend codec opens draws x.msg
    | [] => (true, c)
  | e => (true, c.observe e)

def step (codec : SnapshotCodec) (c : RaftClerk) (e : ClerkEvent) : Option RaftClerk :=
  if c.alive then
    (c.process.step (e.event (c.work codec e).1)).map fun p =>
      { (c.work codec e).2 with process := p }
  else none

/-- `_InstallSnapshotFromPersist`. -/
def installSnapshotFromPersist (codec : SnapshotCodec) (draws : List (List Bool)) :
    Option Str → Option StrStore
  | some data => match codec.parse data with
    | some ps => installEntries ps draws newStore
    | none => some newStore
  | none => some newStore

/-- The members of the constructed clerk, with this data of the persist file and this store. -/
def make (id : Int) (ids : List Int) (addresses : List Str) (file : Option RaftPersistData)
    (snapshotFile : Option Str) (s : StrStore) : RaftClerk where
  process := Process.init id ids file
  alive := true
  addresses := addresses
  kvStore := s
  snapshotFile := snapshotFile
  pendingKvRequests := fun _ => none
  operations := 0
  handled := 0
  responding := []
  writes := []
  applied := []
  answers := []
  misses := []
  written := []
  shipped := []

/-- The constructor.  Without a persist file the snapshot file is not read. -/
def init (codec : SnapshotCodec) (draws : List (List Bool)) (id : Int) (ids : List Int)
    (addresses : List Str) (file : Option RaftPersistData) (snapshotFile : Option Str) :
    Option RaftClerk :=
  (if file.isSome then installSnapshotFromPersist codec draws snapshotFile
    else some newStore).map (make id ids addresses file snapshotFile)

/-- Anything may happen. -/
def anyEvent : RaftClerk → ClerkEvent → Prop := fun _ _ => True

instance (c : RaftClerk) (e : ClerkEvent) : Decidable (anyEvent c e) :=
  inferInstanceAs (Decidable True)

/-- A run of one node from its start, with a condition on every event. -/
def Reaches (ok : RaftClerk → ClerkEvent → Prop) (codec : SnapshotCodec)
    (draws : List (List Bool)) (id : Int) (ids : List Int) (addresses : List Str)
    (file : Option RaftPersistData) (snapshotFile : Option Str) (c : RaftClerk) : Prop :=
  ∃ c₀ es, init codec draws id ids addresses file snapshotFile = some c₀ ∧
    Transition.Run (step codec) ok c₀ es c

/-- A run found by evaluation. -/
theorem Reaches.of_exec (ok : RaftClerk → ClerkEvent → Prop) [∀ c e, Decidable (ok c e)]
    (codec : SnapshotCodec) (draws : List (List Bool)) (id : Int) (ids : List Int)
    (addresses : List Str) (file : Option RaftPersistData) (snapshotFile : Option Str)
    (es : List ClerkEvent) (q : RaftClerk → Bool)
    (h : ((init codec draws id ids addresses file snapshotFile).bind fun c₀ =>
      Transition.exec (step codec) ok c₀ es).map q = some true) :
    ∃ c, Reaches ok codec draws id ids addresses file snapshotFile c ∧ q c = true := by
  obtain ⟨c, hc, hq⟩ := Option.map_eq_some_iff.mp h
  obtain ⟨c₀, hinit, hexec⟩ := Option.bind_eq_some_iff.mp hc
  exact ⟨c, ⟨c₀, es, hinit, .of_exec hexec⟩, hq⟩

theorem turn_event (p : Process) (ev : ClerkEvent) (b b' : Bool) :
    p.turn (ev.event b) = p.turn (ev.event b') := by
  cases ev <;> rfl

theorem step_some {codec : SnapshotCodec} {c c' : RaftClerk} {ev : ClerkEvent}
    (h : c.step codec ev = some c') :
    c.alive = true ∧ c.process.alive = true ∧ ∃ p',
      c.process.stepAlive (ev.event (c.work codec ev).1) = some p' ∧
        c' = { (c.work codec ev).2 with process := p' } := by
  unfold step at h
  split at h
  case isFalse => cases h
  rename_i halive
  obtain ⟨p', hp', rfl⟩ := Option.map_eq_some_iff.mp h
  unfold Process.step at hp'
  split at hp'
  case isFalse => cases hp'
  rename_i hpalive
  exact ⟨halive, hpalive, p', hp', rfl⟩

/-- A condition on what the core handles does not depend on what the clerk reports. -/
theorem reaches_stepAlive {ok : Raft → Input → Prop} {id : Int} {ids : List Int}
    {file : Option RaftPersistData} {p p' : Process} {ev : ClerkEvent} {b : Bool}
    (hr : p.Reaches (Process.Obeys ok) id ids file) (halive : p.alive = true)
    (hok : p.Obeys ok (ev.event true)) (hp : p.stepAlive (ev.event b) = some p') :
    p'.Reaches (Process.Obeys ok) id ids file := by
  obtain ⟨es, hr⟩ := hr
  have hstep : p.step (ev.event b) = some p' := by
    rw [Process.step, if_pos halive, hp]
  refine ⟨_, hr.snoc ?_ hstep⟩
  intro t ht
  rw [turn_event _ _ _ true] at ht
  exact hok t ht

end RaftClerk

end WWRaftKV
