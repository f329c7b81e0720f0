/-
Calls over the wire: the serialization of a call and the dispatcher that receives it.

The message classes are `protobuf`'s.  A class is what its two conversions do, and either
of them may fail.
-/
import WWRaftKV.Rpc.Frame

namespace WWRaftKV

namespace Rpc

/-! ## Messages -/

/-- `SerializeToString` and `ParseFromString` of a message class. -/
structure Codec (α : Type) where
  serialize : α → Option Bytes
  parse : Bytes → Option α

/-- Parsing inverts serialization. -/
def Codec.Inverts {α : Type} (c : Codec α) : Prop :=
  ∀ a bs, c.serialize a = some bs → c.parse bs = some a

/-- A class with these messages and their bytes. -/
def Codec.ofRows {α : Type} [DecidableEq α] (rows : List (α × Bytes)) : Codec α where
  serialize := fun a => (rows.find? fun r => r.1 = a).map (·.2)
  parse := fun bs => (rows.find? fun r => r.2 = bs).map (·.1)

theorem Codec.ofRows_inverts {α : Type} [DecidableEq α] {rows : List (α × Bytes)}
    (h : (rows.map (·.2)).Nodup) : (Codec.ofRows rows).Inverts := by
  intro a bs hbs
  simp only [ofRows, Option.map_eq_some_iff] at hbs ⊢
  obtain ⟨r, hr, rfl⟩ := hbs
  obtain rfl : r.1 = a := by simpa using List.find?_some hr
  have hmem := List.mem_of_find?_eq_some hr
  cases hf : rows.find? fun q => q.2 = r.2 with
  | none =>
    have := List.find?_eq_none.mp hf r hmem
    simp at this
  | some q =>
    have hq : q.2 = r.2 := by simpa using List.find?_some hf
    have he := List.inj_on_of_nodup_map h (List.mem_of_find?_eq_some hf) hmem hq
    exact ⟨q, rfl, by rw [he]⟩

structure RaftRpcData where
  serviceName : Bytes
  methodName : Bytes
  sequenceId : Nat
  payloadSize : Nat
  payloadChecksum : Nat
  payload : Bytes
deriving DecidableEq, Repr

/-- What `deserialize` reads out of a packet. -/
structure Unpacked where
  serviceName : Bytes
  methodName : Bytes
  sequenceId : Nat
  payload : Bytes
deriving DecidableEq, Repr

/-- `RaftRpcSerialization::serialize`, from the serialized arguments on. -/
def serialize (data : Codec RaftRpcData) (serviceName methodName : Bytes) (sequenceId : Nat)
    (args : Bytes) : Option Bytes :=
  data.serialize {
    serviceName := serviceName
    methodName := methodName
    sequenceId := sequenceId
    payloadSize := args.length % 2 ^ 32
    payloadChecksum := (crc32 args).toNat
    payload := args }

/-- `RaftRpcSerialization::deserialize`. -/
def deserialize (data : Codec RaftRpcData) (packet : Bytes) : Option Unpacked := do
  let d ← data.parse packet
  if (crc32 d.payload).toNat ≠ d.payloadChecksum then none
  else some {
    serviceName := d.serviceName
    methodName := d.methodName
    sequenceId := d.sequenceId
    payload := d.payload }

theorem deserialize_serialize {data : Codec RaftRpcData} (hdata : data.Inverts)
    {serviceName methodName args packet : Bytes} {sequenceId : Nat}
    (h : serialize data serviceName methodName sequenceId args = some packet) :
    deserialize data packet = some {
      serviceName := serviceName
      methodName := methodName
      sequenceId := sequenceId
      payload := args } := by
  have hparse := hdata _ _ h
  simp [deserialize, hparse]

/-! ## The dispatcher -/

/-- The method table of a service, with the parser of each method's request class. -/
abbrev ServiceInfo (μ : Type) := Bytes → Option (Bytes → Option μ)

/-- `_Service_map`. -/
abbrev ServiceMap (μ : Type) := Bytes → Option (ServiceInfo μ)

/-- A call of a method of a service. -/
structure Invocation (μ : Type) where
  serviceName : Bytes
  methodName : Bytes
  sequenceId : Nat
  request : μ
deriving DecidableEq, Repr

section Dispatch

variable {μ : Type}

/-- The call that a packet asks for.  Every `none` is an early return of `_OnMessage`. -/
def invocationOf (services : ServiceMap μ) (data : Codec RaftRpcData) (packet : Bytes) :
    Option (Invocation μ) := do
  let u ← deserialize data packet
  let info ← services u.serviceName
  let parse ← info u.methodName
  let request ← parse u.payload
  some {
    serviceName := u.serviceName
    methodName := u.methodName
    sequenceId := u.sequenceId
    request := request }

/-- What `RaftRpcDispatcher::_OnMessage` does with a packet.  The calls of the services are
listed, oldest first. -/
def dispatchPacket (services : ServiceMap μ) (data : Codec RaftRpcData)
    (calls : List (Invocation μ)) (packet : Bytes) : List (Invocation μ) × Bool :=
  match invocationOf services data packet with
  | some call => (calls ++ [call], true)
  | none => (calls, false)

/-- The frame that `CallMethod` sends for a call under a sequence id. -/
def callFrame (order : ByteOrder) (data : Codec RaftRpcData) (message : μ → Option Bytes)
    (call : Invocation μ) : Option Bytes := do
  let args ← message call.request
  let packet ← serialize data call.serviceName call.methodName call.sequenceId args
  some (packFrame order packet)

/-- The call is one of a registered method, and the parser of the method's request class
inverts the serialization of this request. -/
def Registered (services : ServiceMap μ) (message : μ → Option Bytes) (call : Invocation μ) :
    Prop :=
  ∃ info parse, services call.serviceName = some info ∧ info call.methodName = some parse ∧
    ∀ args, message call.request = some args → parse args = some call.request

variable {services : ServiceMap μ} {data : Codec RaftRpcData} {message : μ → Option Bytes}
  {order : ByteOrder} {call : Invocation μ} {calls : List (Invocation μ)} {f : Bytes}
  {frames : List Bytes}

/-- The frame of a call asks for this call. -/
theorem invocationOf_callFrame (hdata : data.Inverts) (hreg : Registered services message call)
    (hf : callFrame order data message call = some f) :
    invocationOf services data (packetOf f) = some call := by
  obtain ⟨info, parse, hinfo, hparse, hinv⟩ := hreg
  simp only [callFrame, Option.bind_eq_bind, Option.bind_eq_some_iff, Option.some.injEq] at hf
  obtain ⟨args, hargs, packet, hpacket, rfl⟩ := hf
  rw [packetOf_packFrame]
  simp [invocationOf, deserialize_serialize hdata hpacket, hinfo, hparse, hinv args hargs]

/-- There is a frame for every call. -/
theorem callFrames_length (hframes : calls.mapM (callFrame order data message) = some frames) :
    frames.length = calls.length := by
  induction calls generalizing frames with
  | nil =>
    obtain rfl : [] = frames := by simpa using hframes
    rfl
  | cons c calls ih =>
    simp only [List.mapM_cons, Option.bind_eq_bind, Option.bind_eq_some_iff] at hframes
    obtain ⟨f, _, fs, hfs, he⟩ := hframes
    obtain rfl : f :: fs = frames := by simpa using he
    rw [List.length_cons, List.length_cons, ih hfs]

theorem callFrame_isFrame (hf : callFrame order data message call = some f)
    (hlen : f.length < 2 ^ 32) : IsFrame order f := by
  simp only [callFrame, Option.bind_eq_bind, Option.bind_eq_some_iff, Option.some.injEq] at hf
  obtain ⟨args, _, packet, _, rfl⟩ := hf
  rw [packFrame_length] at hlen
  exact packFrame_isFrame order hlen

/-- The frames of the calls: each is complete, and the dispatcher makes the calls in
order. -/
theorem run_callFrames (hdata : data.Inverts)
    (hreg : ∀ c ∈ calls, Registered services message c)
    (hframes : calls.mapM (callFrame order data message) = some frames)
    (hlen : ∀ f ∈ frames, f.length < 2 ^ 32) :
    (∀ f ∈ frames, IsFrame order f ∧ (invocationOf services data (packetOf f)).isSome = true) ∧
      ∀ done w, w <+: frames →
        Framing.run (fun s f => dispatchPacket services data s (packetOf f)) done w =
          done ++ calls.take w.length := by
  induction calls generalizing frames with
  | nil =>
    obtain rfl : [] = frames := by simpa using hframes
    constructor
    · exact fun f hf => absurd hf List.not_mem_nil
    · intro done w hw
      obtain rfl := List.prefix_nil.mp hw
      simp
  | cons c calls ih =>
    simp only [List.mapM_cons, Option.bind_eq_bind, Option.bind_eq_some_iff] at hframes
    obtain ⟨f, hf, fs, hfs, he⟩ := hframes
    obtain rfl : f :: fs = frames := by simpa using he
    have hcall := invocationOf_callFrame hdata (hreg c List.mem_cons_self) hf
    obtain ⟨hall, hrun⟩ := ih (fun d hd => hreg d (List.mem_cons_of_mem _ hd)) hfs
      fun g hg => hlen g (List.mem_cons_of_mem _ hg)
    constructor
    · intro g hg
      rcases List.mem_cons.mp hg with rfl | hg
      · exact ⟨callFrame_isFrame hf (hlen g List.mem_cons_self), by rw [hcall]; rfl⟩
      · exact hall g hg
    · intro done w hw
      cases w with
      | nil => simp
      | cons g w =>
        obtain ⟨rfl, htail⟩ := List.cons_prefix_cons.mp hw
        rw [Framing.run_cons, dispatchPacket, hcall]
        dsimp only
        rw [hrun _ w htail, List.append_assoc]
        rfl

/-- Calls that are encoded and cut into chunks in any way are made once each and in order,
with their sequence ids and requests.  After each chunk the buffer holds what there is of
the next frame. -/
theorem dispatcher_roundTrip (order : ByteOrder) (services : ServiceMap μ)
    (data : Codec RaftRpcData) (message : μ → Option Bytes) (calls : List (Invocation μ))
    (frames : List Bytes) (hdata : data.Inverts)
    (hreg : ∀ c ∈ calls, Registered services message c)
    (hframes : calls.mapM (callFrame order data message) = some frames)
    (hlen : ∀ f ∈ frames, f.length < 2 ^ 32) :
    (∀ chunks, chunks.flatten <+: frames.flatten →
      Framing.feed (onMessage order (dispatchPacket services data)) [] [] chunks =
        some (calls.take (Framing.wholeFrames frames chunks.flatten.length).length,
          chunks.flatten.drop
            (Framing.wholeFrames frames chunks.flatten.length).flatten.length)) ∧
      ∀ chunks, chunks.flatten = frames.flatten →
        Framing.feed (onMessage order (dispatchPacket services data)) [] [] chunks =
          some (calls, []) := by
  obtain ⟨hall, hrun⟩ := run_callFrames hdata hreg hframes hlen
  have hgo : ∀ s, ∀ f ∈ frames, (dispatchPacket services data s (packetOf f)).2 = true := by
    intro s f hf
    obtain ⟨call, hcall⟩ := Option.isSome_iff_exists.mp (hall f hf).2
    rw [dispatchPacket, hcall]
  have hfeed : ∀ chunks, chunks.flatten <+: frames.flatten →
      Framing.feed (onMessage order (dispatchPacket services data)) [] [] chunks =
        some (calls.take (Framing.wholeFrames frames chunks.flatten.length).length,
          chunks.flatten.drop
            (Framing.wholeFrames frames chunks.flatten.length).flatten.length) := by
    intro chunks hchunks
    rw [(onMessage_reads order (dispatchPacket services data)).feed_wholeFrames
      (fun f hf => (hall f hf).1) hgo chunks hchunks, hrun [] _ (Framing.wholeFrames_isPrefix _ _),
      List.nil_append]
  refine ⟨hfeed, fun chunks hchunks => ?_⟩
  rw [hfeed chunks (hchunks ▸ List.prefix_refl _), hchunks, Framing.wholeFrames_flatten,
    List.drop_length, callFrames_length hframes, List.take_length]

end Dispatch

/-! ## A stream -/

/-- `RequestVote` of `RaftService` with an empty argument. -/
def voteData (sequenceId : Nat) : RaftRpcData where
  serviceName := [82, 97, 102, 116, 83, 101, 114, 118, 105, 99, 101]
  methodName := [82, 101, 113, 117, 101, 115, 116, 86, 111, 116, 101]
  sequenceId := sequenceId
  payloadSize := 0
  payloadChecksum := 0
  payload := []

/-- The encoding of `voteData` under a sequence id below 256. -/
def votePacket (sequenceId : Nat) : Bytes :=
  [0x0A, 11] ++ (voteData sequenceId).serviceName ++ [0x12, 11] ++
    (voteData sequenceId).methodName ++ [0x19, BitVec.ofNat 8 sequenceId, 0, 0, 0, 0, 0, 0, 0]

def voteCodec (sequenceIds : List Nat) : Codec RaftRpcData :=
  Codec.ofRows (sequenceIds.map fun n => (voteData n, votePacket n))

def voteServices : ServiceMap Unit := fun service =>
  if service = (voteData 0).serviceName then
    some fun method =>
      if method = (voteData 0).methodName then some fun bs => if bs = [] then some () else none
      else none
  else none

def voteCall (sequenceId : Nat) : Invocation Unit where
  serviceName := (voteData sequenceId).serviceName
  methodName := (voteData sequenceId).methodName
  sequenceId := sequenceId
  request := ()

/-- Two calls, cut within the first header and within the second body. -/
theorem dispatcher_roundTrip_vote :
    let stream := packFrame .little (votePacket 1) ++ packFrame .little (votePacket 2)
    Framing.feed (onMessage .little (dispatchPacket voteServices (voteCodec [1, 2]))) [] []
      [stream.take 10, (stream.drop 10).take 70, stream.drop 80] =
        some ([voteCall 1, voteCall 2], []) := by
  intro stream
  apply (dispatcher_roundTrip .little voteServices (voteCodec [1, 2]) (fun _ => some [])
    [voteCall 1, voteCall 2] [packFrame .little (votePacket 1), packFrame .little (votePacket 2)]
    ?_ ?_ ?_ ?_).2
  · have hsplit : (stream.drop 10).take 70 ++ stream.drop 80 = stream.drop 10 := by
      have hdrop : stream.drop 80 = (stream.drop 10).drop 70 := by rw [List.drop_drop]
      rw [hdrop, List.take_append_drop]
    simp only [List.flatten_cons, List.flatten_nil, List.append_nil]
    rw [hsplit, List.take_append_drop]
  · apply Codec.ofRows_inverts
    decide
  · intro c hc
    have hmsg : ∀ args, (fun _ : Unit => some ([] : Bytes)) c.request = some args →
        (if args = [] then some () else none) = some c.request := by
      intro args hargs
      obtain rfl := Option.some.inj hargs
      rfl
    simp only [List.mem_cons, List.not_mem_nil, or_false] at hc
    rcases hc with rfl | rfl
    · exact ⟨_, _, rfl, rfl, hmsg⟩
    · exact ⟨_, _, rfl, rfl, hmsg⟩
  · rfl
  · intro f hf
    simp only [List.mem_cons, List.not_mem_nil, or_false] at hf
    rcases hf with rfl | rfl <;>
    · rw [packFrame_length]
      decide

end Rpc

end WWRaftKV
