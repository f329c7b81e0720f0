/-
Both ends of a connection: a client's channel, a dispatcher, and the bytes between them.

The two directions of a connection are streams.  Each end is handed any number of bytes at
a time.  A service may answer its calls in any order and at any time, and the connection
may close and come up again.  The dispatcher's end of a closed connection goes on with the
bytes that are on the way to it.

`made` and `answers` record what was called and what was answered.  No step reads them.
-/
import Mathlib.Logic.Function.Basic
import WWRaftKV.Rpc.Completion

namespace WWRaftKV

namespace Rpc

/-! ## Services -/

/-- The request and response classes of a method. -/
structure Method (ν μ : Type) where
  request : Codec ν
  response : Codec μ

/-- The arguments of a generated stub. -/
structure Call (ν : Type) where
  serviceName : Bytes
  methodName : Bytes
  request : ν
deriving DecidableEq, Repr

/-- The call under a sequence id. -/
def Call.under {ν : Type} (c : Call ν) (sequenceId : Nat) : Invocation ν where
  serviceName := c.serviceName
  methodName := c.methodName
  sequenceId := sequenceId
  request := c.request

/-- What the stub of a method hands to `CallMethod`. -/
def Call.methodCall {ν μ : Type} (c : Call ν) (m : Method ν μ) : MethodCall μ where
  serviceName := c.serviceName
  methodName := c.methodName
  request := m.request.serialize c.request
  response := m.response.parse

/-- What both ends share, and which services the dispatcher has.  `shortLived` tells the
`KVOperationDispatcher` from the `RaftRpcDispatcher`. -/
structure Protocol (ν μ : Type) where
  order : ByteOrder
  data : Codec RaftRpcData
  methods : Bytes → Bytes → Option (Method ν μ)
  registered : Bytes → Bool
  shortLived : Bool

namespace Protocol

variable {ν μ : Type} (p : Protocol ν μ)

/-- `_Service_map`, with the method table that `registerService` makes. -/
def serviceMap : ServiceMap ν := fun serviceName =>
  if p.registered serviceName then
    some fun methodName => (p.methods serviceName methodName).map (·.request.parse)
  else none

/-- The packet of a response.  `none` is a response that cannot be serialized. -/
def responsePacket (inv : Invocation ν) (response : μ) : Option Bytes := do
  let m ← p.methods inv.serviceName inv.methodName
  let args ← m.response.serialize response
  serialize p.data inv.serviceName inv.methodName inv.sequenceId args

/-- The frame that `_SendResponse` builds.  A response that cannot be serialized is logged,
and the frame is sent with an empty packet. -/
def responseFrame (inv : Invocation ν) (response : μ) : Bytes :=
  packFrame p.order ((p.responsePacket inv response).getD [])

/-- What is known of the message classes.  An empty packet parses to default values. -/
structure Lawful : Prop where
  data : p.data.Inverts
  blank : ∀ d, p.data.parse [] = some d → d.sequenceId = 0
  methods : ∀ serviceName methodName m, p.methods serviceName methodName = some m →
    m.request.Inverts ∧ m.response.Inverts

end Protocol

/-! ## The dispatcher's end -/

/-- A connection as its dispatcher sees it: the bytes on the way to it and on the way back,
its buffer, the calls it has made on the services, and those whose closures have not been
run. -/
structure Link (ν : Type) where
  toServer : Bytes
  buffer : Bytes
  calls : List (Invocation ν)
  jobs : List (Invocation ν)
  shut : Bool
  toClient : Bytes
deriving DecidableEq, Repr

namespace Link

variable {ν μ : Type}

def init : Link ν where
  toServer := []
  buffer := []
  calls := []
  jobs := []
  shut := false
  toClient := []

/-- The client sends these bytes. -/
def request (link : Link ν) (bytes : Bytes) : Link ν :=
  { link with toServer := link.toServer ++ bytes }

@[simp] theorem request_nil (link : Link ν) : link.request [] = link := by
  rw [request, List.append_nil]

/-- `_OnMessage`, with `n` more bytes. -/
def onMessage (p : Protocol ν μ) (link : Link ν) (n : Nat) : Option (Link ν) := do
  let (calls, buffer) ← Rpc.onMessage p.order (dispatchPacket p.serviceMap p.data) []
    (link.buffer ++ link.toServer.take n)
  some { link with
    toServer := link.toServer.drop n
    buffer := buffer
    calls := link.calls ++ calls
    jobs := link.jobs ++ calls }

/-- `_SendResponse` for a call in hand.  Behind a `shutdown` nothing is sent any more. -/
def sendResponse (p : Protocol ν μ) (link : Link ν) (inv : Invocation ν) (response : μ) :
    Link ν :=
  if link.shut then link
  else { link with
    toClient := link.toClient ++ p.responseFrame inv response
    shut := p.shortLived }

section Send

variable (p : Protocol ν μ) (link : Link ν) (inv : Invocation ν) (response : μ)

@[simp] theorem sendResponse_calls : (link.sendResponse p inv response).calls = link.calls := by
  unfold sendResponse
  split <;> rfl

@[simp] theorem sendResponse_jobs : (link.sendResponse p inv response).jobs = link.jobs := by
  unfold sendResponse
  split <;> rfl

theorem sendResponse_toClient :
    (link.sendResponse p inv response).toClient =
      link.toClient ++ if link.shut then [] else p.responseFrame inv response := by
  unfold sendResponse
  split <;> simp

theorem sendResponse_toServer :
    (link.sendResponse p inv response).buffer ++ (link.sendResponse p inv response).toServer =
      link.buffer ++ link.toServer := by
  unfold sendResponse
  split <;> rfl

end Send

end Link

/-! ## The client's end -/

/-- What `_OnMessage` of the channel does with a packet. -/
def Session.onPacket {μ : Type} (order : ByteOrder) (data : Codec RaftRpcData) (s : Session μ)
    (packet : Bytes) : Session μ × Bool :=
  ((s.step order data (.response packet)).getD s, (s.channel.handlePacket data packet).2)

theorem Session.onPacket_step {μ : Type} (order : ByteOrder) (data : Codec RaftRpcData)
    (s : Session μ) (packet : Bytes) :
    s.step order data (.response packet) = some (s.onPacket order data packet).1 := rfl

/-! ## The whole -/

/-- `current` is the number of the client's last connection. -/
structure Exchange (ν μ : Type) where
  client : Session μ
  buffer : Bytes
  current : Nat
  links : Nat → Link ν
  made : List (Call ν × Nat)
  answers : List (Invocation ν × μ)

inductive ExchangeEvent (ν μ : Type)
  /-- a stub is called -/
  | call (c : Call ν)
  /-- a dispatcher gets `n` more bytes from its connection -/
  | serverReceives (link n : Nat)
  /-- a service runs the closure of one of the calls in hand, with the response or with a
  controller that has failed -/
  | answer (link job : Nat) (response : Option μ)
  /-- the channel gets `n` more bytes from its connection -/
  | clientReceives (n : Nat)
  /-- a timer of the channel fires -/
  | timeout (timerId : Nat)
  /-- the connection is up, or down -/
  | connection (connected : Bool)

namespace Exchange

variable {ν μ : Type}

def init : Exchange ν μ where
  client := Session.init
  buffer := []
  current := 0
  links := fun _ => Link.init
  made := []
  answers := []

def setLink (s : Exchange ν μ) (l : Nat) (link : Link ν) : Exchange ν μ :=
  { s with links := Function.update s.links l link }

/-- `CallMethod`, through the stub of a method. -/
def callMethod (p : Protocol ν μ) (s : Exchange ν μ) (c : Call ν) : Option (Exchange ν μ) := do
  let m ← p.methods c.serviceName c.methodName
  let client ← s.client.step p.order p.data (.call (c.methodCall m))
  let sent := client.channel.sent.drop s.client.channel.sent.length
  some { s.setLink s.current ((s.links s.current).request sent.flatten) with
    client := client
    made := s.made ++ [(c, s.current)] }

/-- The closure of a call is run. -/
def answer (p : Protocol ν μ) (s : Exchange ν μ) (l job : Nat) (response : Option μ) :
    Option (Exchange ν μ) := do
  let inv ← (s.links l).jobs[job]?
  let link := { s.links l with jobs := (s.links l).jobs.eraseIdx job }
  match response with
  | none => some (s.setLink l link)
  | some m => some { s.setLink l (link.sendResponse p inv m) with
      answers := s.answers ++ [(inv, m)] }

/-- `_OnMessage` of the channel, with `n` more bytes. -/
def clientReceives (p : Protocol ν μ) (s : Exchange ν μ) (n : Nat) : Option (Exchange ν μ) := do
  let link := s.links s.current
  let (client, buffer) ← Rpc.onMessage p.order (Session.onPacket p.order p.data) s.client
    (s.buffer ++ link.toClient.take n)
  some { s.setLink s.current { link with toClient := link.toClient.drop n } with
    client := client
    buffer := buffer }

/-- A connection that comes up is a new one, with an empty buffer. -/
def connection (p : Protocol ν μ) (s : Exchange ν μ) (connected : Bool) :
    Option (Exchange ν μ) := do
  let client ← s.client.step p.order p.data (.connection connected)
  if connected then some { s with client := client, buffer := [], current := s.current + 1 }
  else some { s with client := client }

def step (p : Protocol ν μ) (s : Exchange ν μ) : ExchangeEvent ν μ → Option (Exchange ν μ)
  | .call c => s.callMethod p c
  | .serverReceives l n => do
    let link ← (s.links l).onMessage p n
    some (s.setLink l link)
  | .answer l job response => s.answer p l job response
  | .clientReceives n =>
    if s.client.channel.connected then s.clientReceives p n else none
  | .timeout timerId => do
    let client ← s.client.step p.order p.data (.timeout timerId)
    some { s with client := client }
  | .connection connected =>
    if s.client.channel.connected = connected then none else s.connection p connected

/-- The sequence ids have not run out, and no frame is longer than its length field can
say. -/
def Fits (p : Protocol ν μ) (s : Exchange ν μ) : ExchangeEvent ν μ → Prop
  | .call c => s.made.length + 2 < 2 ^ 64 ∧
    ∀ m ∈ p.methods c.serviceName c.methodName,
      ∀ f ∈ callFrame p.order p.data m.request.serialize (c.under (s.made.length + 1)),
        f.length < 2 ^ 32
  | .answer l job (some m) =>
    ∀ inv ∈ (s.links l).jobs[job]?, (p.responseFrame inv m).length < 2 ^ 32
  | _ => True

instance (p : Protocol ν μ) : (s : Exchange ν μ) → (e : ExchangeEvent ν μ) →
    Decidable (Fits p s e)
  | s, .call c => inferInstanceAs (Decidable (s.made.length + 2 < 2 ^ 64 ∧
    ∀ m ∈ p.methods c.serviceName c.methodName,
      ∀ f ∈ callFrame p.order p.data m.request.serialize (c.under (s.made.length + 1)),
        f.length < 2 ^ 32))
  | s, .answer l job (some m) => inferInstanceAs (Decidable
    (∀ inv ∈ (s.links l).jobs[job]?, (p.responseFrame inv m).length < 2 ^ 32))
  | _, .answer _ _ none => .isTrue trivial
  | _, .serverReceives _ _ => .isTrue trivial
  | _, .clientReceives _ => .isTrue trivial
  | _, .timeout _ => .isTrue trivial
  | _, .connection _ => .isTrue trivial

/-- The call with this number was made on the connection `l`. -/
def MadeOn (made : List (Call ν × Nat)) (l : Nat) (inv : Invocation ν) : Prop :=
  ∃ (k : Nat) (c : Call ν), made[k]? = some (c, l) ∧ inv = c.under (k + 1)

end Exchange

end Rpc

end WWRaftKV
