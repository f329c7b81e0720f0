/-
The cluster: the cores of all nodes and the messages between them.

One step is one atomic step of one core, or one move of the surroundings.
Messages in flight form a bag: any of them may be handled next, or never, and
each is handled at most once.  A request remembers the node whose call it is
(`src`), since the closure of an RPC brings the reply back to that node.

The clerk of a node shows up only as the party that answers the local requests
of its core: a commit is always acknowledged, a snapshot is generated or
installed with success or with failure.  Its table of closures and its store are
treated with the node model.
-/
import WWRaftKV.Node.Model

namespace WWRaftKV

/-! ## Messages in flight -/

structure Envelope where
  src : Int
  dst : Int
  msg : RaftMessage
deriving DecidableEq, Repr

/-- The requests that a core addresses to its own clerk. -/
def RaftMessage.forClerk : RaftMessage → Bool
  | .applyCommitLogsRequest _ => true
  | .generateSnapshotRequest _ => true
  | .applySnapshotRequest _ => true
  | _ => false

/-- Where a message pushed by node `n` goes, when `caller` is the node whose call
is being served.  The wire carries the term and the command of an entry only, and
the clerk that receives a response fills in who sent it.  Answers to clients and
the shutdown mark leave the cluster. -/
def route (n caller : Int) : RaftMessage → Option Envelope
  | .requestVoteRequest m => some { src := n, dst := m.toId, msg := .requestVoteRequest m }
  | .appendEntriesRequest m =>
    let wire := { m with entries := m.entries.map fun e => e.core.entry }
    some { src := n, dst := m.toId, msg := .appendEntriesRequest wire }
  | .installSnapshotRequest m =>
    some { src := n, dst := m.toId, msg := .installSnapshotRequest m }
  | .requestVoteResponse m => some { src := n, dst := caller, msg := .requestVoteResponse m }
  | .appendEntriesResponse m =>
    some { src := n, dst := caller, msg := .appendEntriesResponse { m with fromId := n } }
  | .installSnapshotResponse m =>
    some { src := n, dst := caller, msg := .installSnapshotResponse { m with fromId := n } }
  | .applyCommitLogsRequest m =>
    some { src := caller, dst := n, msg := .applyCommitLogsRequest m }
  | .generateSnapshotRequest m =>
    some { src := caller, dst := n, msg := .generateSnapshotRequest m }
  | .applySnapshotRequest m =>
    some { src := caller, dst := n, msg := .applySnapshotRequest m }
  | _ => none

/-! ## The clerk's answers -/

/-! ## State and steps -/

structure Server where
  raft : Raft
  alive : Bool
deriving DecidableEq, Repr

structure Cluster where
  ids : List Int
  servers : Int → Server
  net : List Envelope
  history : List CoreStep

/-- The three calls a node makes to its peers. -/
inductive RpcKind
  | requestVote
  | appendEntries
  | installSnapshot
deriving DecidableEq, Repr

/-- The response a failed call delivers: the closure runs with the message as
`protobuf` creates it, and only the controller knows of the failure. -/
def RpcKind.defaultResponse (callee : Int) : RpcKind → RaftMessage
  | .requestVote => .requestVoteResponse { term := 0, voteGranted := false }
  | .appendEntries => .appendEntriesResponse { fromId := callee, term := 0, success := false }
  | .installSnapshot => .installSnapshotResponse { fromId := callee, term := 0 }

inductive Action
  /-- the election timer of a node fires -/
  | electionTimeout (n : Int)
  /-- the heartbeat timer of a node fires -/
  | heartbeatTimeout (n : Int)
  /-- a client operation reaches a node -/
  | client (n : Int) (m : KVOperationRequestMessage)
  /-- the message at this position of the bag is handled by its receiver -/
  | deliver (k : Nat)
  /-- the clerk answers the local request at this position -/
  | clerk (k : Nat) (succeeds : Bool)
  /-- the message at this position is lost -/
  | lose (k : Nat)
  /-- a call ends with a transport failure -/
  | rpcFailure (caller callee : Int) (kind : RpcKind)
deriving DecidableEq, Repr

namespace Cluster

def init (ids : List Int) : Cluster where
  ids := ids
  servers := fun n => { raft := Raft.make n ids, alive := true }
  net := []
  history := []

/-- One atomic step of the core of node `n`.  A core that has thrown is gone with
its process. -/
def act (c : Cluster) (n caller : Int) (i : Input) : Cluster :=
  if n ∈ c.ids ∧ (c.servers n).alive then
    let r := (c.servers n).raft
    let x := r.react i
    { c with
      servers := Function.update c.servers n { raft := x.raft, alive := !x.thrown }
      net := c.net ++ x.pushed.filterMap (route n caller)
      history := c.history ++ [{ node := n, pre := r, post := x.raft, pushed := x.pushed }] }
  else c

/-- Take the message at position `k` out of the bag. -/
def take (c : Cluster) (k : Nat) : Cluster := { c with net := c.net.eraseIdx k }

def step (c : Cluster) : Action → Option Cluster
  | .electionTimeout n => some (c.act n n .electionTimeout)
  | .heartbeatTimeout n => some (c.act n n .heartbeatTimeout)
  | .client n m => some (c.act n n (.message (.kvOperationRequest m)))
  | .deliver k => match c.net[k]? with
    | some e => if e.msg.forClerk then none
      else some ((c.take k).act e.dst e.src (.message e.msg))
    | none => none
  | .clerk k succeeds => match c.net[k]? with
    | some e => match clerkAnswer succeeds e.msg with
      | some m => some { c.take k with net := (c.take k).net ++ [{ e with msg := m }] }
      | none => none
    | none => none
  | .lose k => some (c.take k)
  | .rpcFailure caller callee kind =>
    some { c with net := c.net ++
      [{ src := callee, dst := caller, msg := kind.defaultResponse callee }] }

/-- The raft state of node `n`. -/
def raft (c : Cluster) (n : Int) : Raft := (c.servers n).raft

/-- The core that an action makes act: the node, the node whose call it serves, and
what it handles. -/
def turn (c : Cluster) : Action → Option (Int × Int × Input)
  | .electionTimeout n => some (n, n, .electionTimeout)
  | .heartbeatTimeout n => some (n, n, .heartbeatTimeout)
  | .client n m => some (n, n, .message (.kvOperationRequest m))
  | .deliver k => match c.net[k]? with
    | some e => if e.msg.forClerk then none else some (e.dst, e.src, .message e.msg)
    | none => none
  | _ => none

/-- A condition on what the core of a live node handles next, in the state before it
does. -/
def Obeys (ok : Cluster → Int → Input → Prop) (c : Cluster) (a : Action) : Prop :=
  ∀ x ∈ c.turn a, (x.1 ∈ c.ids ∧ (c.servers x.1).alive = true) → ok c x.1 x.2.2

instance (ok : Cluster → Int → Input → Prop) [∀ c n i, Decidable (ok c n i)] (c : Cluster)
    (a : Action) : Decidable (c.Obeys ok a) := by
  unfold Obeys
  infer_instance

/-- A run of the cluster from its start, with a condition on every step of a core. -/
def Reaches (ok : Cluster → Int → Input → Prop) (ids : List Int) (c : Cluster) : Prop :=
  ∃ as, Transition.Run step (Obeys ok) (init ids) as c

/-- Every step of a core is allowed. -/
def anyStep : Cluster → Int → Input → Prop := fun _ _ _ => True

instance (c : Cluster) (n : Int) (i : Input) : Decidable (anyStep c n i) :=
  inferInstanceAs (Decidable True)

/-- A run found by evaluation. -/
theorem Reaches.of_exec (ok : Cluster → Int → Input → Prop) [∀ c n i, Decidable (ok c n i)]
    (ids : List Int) (as : List Action) (p : Cluster → Bool)
    (h : (Transition.exec step (Obeys ok) (init ids) as).map p = some true) :
    ∃ c, Reaches ok ids c ∧ p c = true := by
  obtain ⟨c, hr, hp⟩ := Transition.Run.exists_of_exec h
  exact ⟨c, ⟨as, hr⟩, hp⟩

end Cluster

end WWRaftKV
