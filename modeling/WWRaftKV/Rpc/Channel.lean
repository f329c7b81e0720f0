/-
The client's end of a connection: calls, responses, timers and the pending table.

A closure is the number of its call, and so is the timer that the call arms.  The source
reads the context of a call once more after it has erased it from the table; the model
takes what the context held.
-/
import WWRaftKV.Rpc.Dispatcher
import WWRaftKV.General.Run

namespace WWRaftKV

namespace Rpc

/-! ## The pending table -/

/-- `CallMethodContext`.  `_Response` is what its class can parse. -/
structure CallMethodContext (μ : Type) where
  response : Bytes → Option μ
  done : Nat
  timerId : Nat

/-- `_Pending_requests`, in the order of its keys. -/
abbrev PendingRequests (μ : Type) := List (Nat × CallMethodContext μ)

namespace PendingRequests

variable {μ : Type}

/-- `_Pending_requests[n] = c`. -/
def assign (n : Nat) (c : CallMethodContext μ) : PendingRequests μ → PendingRequests μ
  | [] => [(n, c)]
  | (k, d) :: rest =>
    if n < k then (n, c) :: (k, d) :: rest
    else if n = k then (n, c) :: rest
    else (k, d) :: assign n c rest

def find (n : Nat) : PendingRequests μ → Option (CallMethodContext μ)
  | [] => none
  | (k, d) :: rest => if n = k then some d else find n rest

def erase (n : Nat) (p : PendingRequests μ) : PendingRequests μ := p.filter fun e => e.1 ≠ n

/-- The keys ascend. -/
def Ordered (p : PendingRequests μ) : Prop := p.Pairwise fun e f => e.1 < f.1

variable {n k : Nat} {c d : CallMethodContext μ} {p : PendingRequests μ}

@[simp] theorem find_nil : find n ([] : PendingRequests μ) = none := rfl

theorem find_cons {m : Nat} :
    find n ((m, d) :: p) = if n = m then some d else find n p := rfl

theorem mem_of_find (h : find n p = some c) : (n, c) ∈ p := by
  induction p with
  | nil => cases h
  | cons e p ih =>
    obtain ⟨m, d⟩ := e
    rw [find_cons] at h
    split at h
    · next hn =>
      rw [hn, Option.some.inj h]
      exact List.mem_cons_self
    · exact List.mem_cons_of_mem _ (ih h)

theorem Ordered.find_of_mem (hp : p.Ordered) (h : (n, c) ∈ p) : find n p = some c := by
  induction p with
  | nil => exact absurd h List.not_mem_nil
  | cons e p ih =>
    obtain ⟨m, d⟩ := e
    obtain ⟨hhead, htail⟩ := List.pairwise_cons.mp hp
    rw [find_cons]
    rcases List.mem_cons.mp h with he | h
    · obtain ⟨rfl, rfl⟩ := Prod.mk.inj he
      rw [if_pos rfl]
    · have hlt : m < n := hhead _ h
      rw [if_neg (by omega)]
      exact ih htail h

theorem find_assign : find k (assign n c p) = if k = n then some c else find k p := by
  induction p with
  | nil => rfl
  | cons e p ih =>
    obtain ⟨m, d⟩ := e
    rw [assign]
    split
    · rfl
    split
    · next h =>
      rw [find_cons, find_cons, h]
      split <;> rfl
    · next h =>
      rw [find_cons, ih, find_cons]
      by_cases hk : k = m
      · rw [if_pos hk, if_pos hk, if_neg (by omega)]
      · rw [if_neg hk, if_neg hk]

theorem find_erase : find k (erase n p) = if k = n then none else find k p := by
  induction p with
  | nil => simp [erase]
  | cons e p ih =>
    obtain ⟨m, d⟩ := e
    by_cases hm : m = n
    · have hdrop : erase n ((m, d) :: p) = erase n p := by simp [erase, hm]
      rw [hdrop, ih, find_cons, hm]
      split <;> rfl
    · have hkeep : erase n ((m, d) :: p) = (m, d) :: erase n p := by simp [erase, hm]
      rw [hkeep, find_cons, ih, find_cons]
      by_cases hk : k = m
      · rw [if_pos hk, if_pos hk, if_neg (by omega)]
      · rw [if_neg hk, if_neg hk]

theorem mem_assign {e : Nat × CallMethodContext μ} (h : e ∈ assign n c p) :
    e = (n, c) ∨ e ∈ p := by
  induction p with
  | nil =>
    left
    simpa [assign] using h
  | cons d p ih =>
    rw [assign] at h
    split at h
    · exact List.mem_cons.mp h
    split at h
    · exact (List.mem_cons.mp h).imp_right (List.mem_cons_of_mem _)
    · rcases List.mem_cons.mp h with rfl | h
      · exact .inr List.mem_cons_self
      · exact (ih h).imp_right (List.mem_cons_of_mem _)

theorem Ordered.assign (hp : p.Ordered) : (p.assign n c).Ordered := by
  induction p with
  | nil => exact List.pairwise_singleton _ _
  | cons e p ih =>
    obtain ⟨m, d⟩ := e
    obtain ⟨hhead, htail⟩ := List.pairwise_cons.mp hp
    rw [PendingRequests.assign]
    split
    · next hlt =>
      apply List.pairwise_cons.mpr ⟨?_, hp⟩
      intro f hf
      rcases List.mem_cons.mp hf with rfl | hf
      · exact hlt
      · exact Nat.lt_trans hlt (hhead f hf)
    split
    · next heq =>
      rw [heq]
      exact List.pairwise_cons.mpr ⟨hhead, htail⟩
    · next hle hne =>
      apply List.pairwise_cons.mpr ⟨?_, ih htail⟩
      intro f hf
      rcases mem_assign hf with rfl | hf
      · show m < n
        omega
      · exact hhead f hf

theorem Ordered.erase (hp : p.Ordered) : (p.erase n).Ordered := List.Pairwise.filter _ hp

end PendingRequests

/-! ## The channel -/

/-- What a closure is run with: the response, or the reason of the controller. -/
inductive Outcome (μ : Type)
  | response (m : μ)
  | failed (reason : String)
deriving DecidableEq, Repr

/-- `connected` is what the client says about its connection.  `timers` holds what is
armed on the event loop: a timer and the sequence id that its callback is bound to. -/
structure RaftRpcChannel (μ : Type) where
  sequenceId : Nat
  connected : Bool
  pendingRequests : PendingRequests μ
  timers : List (Nat × Nat)
  calls : Nat
  sent : List Bytes
  runs : List (Nat × Outcome μ)

/-- The arguments of `CallMethod`.  `request` is the outcome of `SerializeToString`. -/
structure MethodCall (μ : Type) where
  serviceName : Bytes
  methodName : Bytes
  request : Option Bytes
  response : Bytes → Option μ

namespace RaftRpcChannel

variable {μ : Type}

def init : RaftRpcChannel μ where
  sequenceId := 1
  connected := false
  pendingRequests := []
  timers := []
  calls := 0
  sent := []
  runs := []

/-- `_Done->Run()`. -/
def done (ch : RaftRpcChannel μ) (closure : Nat) (o : Outcome μ) : RaftRpcChannel μ :=
  { ch with runs := ch.runs ++ [(closure, o)] }

/-- `_Event_loop->cancel(_Timer_id)`. -/
def cancel (ch : RaftRpcChannel μ) (timerId : Nat) : RaftRpcChannel μ :=
  { ch with timers := ch.timers.filter fun t => t.1 ≠ timerId }

/-- `CallMethod`. -/
def callMethod (order : ByteOrder) (data : Codec RaftRpcData) (ch : RaftRpcChannel μ)
    (call : MethodCall μ) : RaftRpcChannel μ :=
  let id := ch.sequenceId
  let closure := ch.calls
  let ch := { ch with sequenceId := (id + 1) % 2 ^ 64, calls := closure + 1 }
  match call.request.bind (serialize data call.serviceName call.methodName id) with
  | none => ch.done closure (.failed "request serialization failed")
  | some packet =>
    if ch.connected then
      let context := { response := call.response, done := closure, timerId := closure }
      { ch with
        timers := ch.timers ++ [(closure, id)]
        pendingRequests := ch.pendingRequests.assign id context
        sent := ch.sent ++ [packFrame order packet] }
    else ch.done closure (.failed "tcp connection not availavble")

/-- The pending request that a packet names: what of the packet is left, and the context. -/
def requestOf (data : Codec RaftRpcData) (pending : PendingRequests μ) (packet : Bytes) :
    Option (Unpacked × CallMethodContext μ) := do
  let u ← deserialize data packet
  let context ← pending.find u.sequenceId
  some (u, context)

/-- What `_OnMessage` does with a packet. -/
def handlePacket (data : Codec RaftRpcData) (ch : RaftRpcChannel μ) (packet : Bytes) :
    RaftRpcChannel μ × Bool :=
  match requestOf data ch.pendingRequests packet with
  | none => (ch, false)
  | some (u, context) =>
    match context.response u.payload with
    | none => (ch.done context.done (.failed "parse payload failed"), false)
    | some m =>
      let ch := ch.cancel context.timerId
      let ch := { ch with pendingRequests := ch.pendingRequests.erase u.sequenceId }
      (ch.done context.done (.response m), true)

/-- `_HandleTimeout`. -/
def handleTimeout (ch : RaftRpcChannel μ) (sequenceId : Nat) : RaftRpcChannel μ :=
  match ch.pendingRequests.find sequenceId with
  | none => ch
  | some context =>
    { ch with pendingRequests := ch.pendingRequests.erase sequenceId }.done context.done
      (.failed "request timeout")

/-- `_OnConnection`. -/
def onConnection (ch : RaftRpcChannel μ) (connected : Bool) : RaftRpcChannel μ :=
  let ch := { ch with connected := connected }
  if connected then ch
  else
    let ch := ch.pendingRequests.foldl (fun ch e =>
      (ch.cancel e.2.timerId).done e.2.done (.failed "connection already closed")) ch
    { ch with pendingRequests := [] }

/-! ## Streams of packets -/

/-- The packet is a response that a pending request takes. -/
def Answers (data : Codec RaftRpcData) (pending : PendingRequests μ) (packet : Bytes) : Prop :=
  ∃ u context m, requestOf data pending packet = some (u, context) ∧
    context.response u.payload = some m

/-- The requests that are pending behind a packet. -/
def answeredBy (data : Codec RaftRpcData) (pending : PendingRequests μ) (packet : Bytes) :
    PendingRequests μ :=
  match requestOf data pending packet with
  | none => pending
  | some (u, context) =>
    if (context.response u.payload).isSome then pending.erase u.sequenceId else pending

/-- The requests that are pending behind these frames. -/
def leftPending (data : Codec RaftRpcData) (pending : PendingRequests μ) (frames : List Bytes) :
    PendingRequests μ :=
  frames.foldl (fun p f => answeredBy data p (packetOf f)) pending

section Packets

variable {data : Codec RaftRpcData} {ch : RaftRpcChannel μ} {packet : Bytes}

theorem handlePacket_pending :
    (handlePacket data ch packet).1.pendingRequests =
      answeredBy data ch.pendingRequests packet := by
  unfold handlePacket answeredBy
  cases requestOf data ch.pendingRequests packet with
  | none => rfl
  | some r =>
    dsimp only
    cases r.2.response r.1.payload <;> rfl

theorem handlePacket_stops :
    (handlePacket data ch packet).2 = false ↔ ¬ Answers data ch.pendingRequests packet := by
  unfold handlePacket Answers
  cases requestOf data ch.pendingRequests packet with
  | none => simp
  | some r =>
    obtain ⟨u, context⟩ := r
    dsimp only
    cases hm : context.response u.payload with
    | none =>
      simp only [true_iff, Option.some.injEq, Prod.mk.injEq, not_exists, not_and]
      rintro u' context' m ⟨rfl, rfl⟩ h
      rw [hm] at h
      cases h
    | some m =>
      simp only [Bool.true_eq_false, false_iff, not_not]
      exact ⟨u, context, m, rfl, hm⟩

theorem answeredBy_stops (h : ¬ Answers data ch.pendingRequests packet) :
    answeredBy data ch.pendingRequests packet = ch.pendingRequests := by
  unfold answeredBy
  cases hr : requestOf data ch.pendingRequests packet with
  | none => rfl
  | some r =>
    dsimp only
    cases hm : r.2.response r.1.payload with
    | none => rfl
    | some m => exact absurd ⟨r.1, r.2, m, hr, hm⟩ h

/-- A packet that names no pending request changes nothing. -/
theorem handlePacket_quiet (h : requestOf data ch.pendingRequests packet = none) :
    (handlePacket data ch packet).1 = ch := by
  unfold handlePacket
  rw [h]

/-- Any other packet runs a closure. -/
theorem handlePacket_runs (h : requestOf data ch.pendingRequests packet ≠ none) :
    ∃ x, (handlePacket data ch packet).1.runs = ch.runs ++ [x] := by
  unfold handlePacket
  cases hr : requestOf data ch.pendingRequests packet with
  | none => exact absurd hr h
  | some r =>
    dsimp only
    cases r.2.response r.1.payload with
    | none => exact ⟨_, rfl⟩
    | some m => exact ⟨_, rfl⟩

theorem run_pending (frames : List Bytes) :
    (Framing.run (fun s f => handlePacket data s (packetOf f)) ch frames).pendingRequests =
      leftPending data ch.pendingRequests frames := by
  induction frames generalizing ch with
  | nil => rfl
  | cons f frames ih =>
    rw [Framing.run_cons, ih, handlePacket_pending]
    rfl

end Packets

end RaftRpcChannel

/-! ## Deliveries and chunks -/

/-- However the stream is cut into chunks, the same has been delivered behind its end. -/
def SameDeliveries {σ δ : Type} (read : σ → Bytes → Option (σ × Bytes)) (out : σ → List δ)
    (s : σ) (stream : Bytes) : Prop :=
  ∀ cs ds, cs.flatten = stream → ds.flatten = stream →
    (Framing.feed read s [] cs).map (fun x => out x.1) =
      (Framing.feed read s [] ds).map fun x => out x.1

section Deliveries

variable {μ ν : Type} {data : Codec RaftRpcData} {order : ByteOrder} {frames : List Bytes}

/-- The channel: no packet that names a pending request may come behind one that the loop
returns on. -/
theorem channel_deliveries (data : Codec RaftRpcData) (ch : RaftRpcChannel μ)
    (h : ∀ f ∈ frames, IsFrame order f) :
    SameDeliveries (onMessage order (RaftRpcChannel.handlePacket data)) (·.runs) ch
        frames.flatten ↔
      ∀ pre f post, frames = pre ++ f :: post →
        ¬ RaftRpcChannel.Answers data
          (RaftRpcChannel.leftPending data ch.pendingRequests pre) (packetOf f) →
        ∀ g ∈ post, RaftRpcChannel.requestOf data
          (RaftRpcChannel.leftPending data ch.pendingRequests pre) (packetOf g) = none := by
  have hreads := (onMessage_reads order (RaftRpcChannel.handlePacket data)).chunking_quiet_iff
    (s := ch) h
    (q := fun s f => RaftRpcChannel.requestOf data s.pendingRequests (packetOf f) = none)
    (fun _ _ => RaftRpcChannel.handlePacket_quiet) (fun _ _ => RaftRpcChannel.handlePacket_runs)
  rw [SameDeliveries, hreads]
  apply forall_congr'
  intro pre
  apply forall_congr'
  intro f
  apply forall_congr'
  intro post
  apply imp_congr_right
  intro _
  rw [RaftRpcChannel.handlePacket_stops, RaftRpcChannel.run_pending]
  apply imp_congr_right
  intro hstop
  rw [RaftRpcChannel.handlePacket_pending]
  rw [← RaftRpcChannel.run_pending] at hstop ⊢
  rw [RaftRpcChannel.answeredBy_stops hstop]

/-- The dispatcher: no packet that is a call may come behind one that is not. -/
theorem dispatcher_deliveries (services : ServiceMap ν) (calls : List (Invocation ν))
    (h : ∀ f ∈ frames, IsFrame order f) :
    SameDeliveries (onMessage order (dispatchPacket services data)) id calls frames.flatten ↔
      ∀ pre f post, frames = pre ++ f :: post → invocationOf services data (packetOf f) = none →
        ∀ g ∈ post, invocationOf services data (packetOf g) = none := by
  have hquiet : ∀ (s : List (Invocation ν)) f, invocationOf services data (packetOf f) = none →
      (dispatchPacket services data s (packetOf f)).1 = s := by
    intro s f hf
    rw [dispatchPacket, hf]
  have hloud : ∀ (s : List (Invocation ν)) f, ¬ invocationOf services data (packetOf f) = none →
      ∃ x, id (dispatchPacket services data s (packetOf f)).1 = id s ++ [x] := by
    intro s f hf
    obtain ⟨call, hcall⟩ := Option.ne_none_iff_exists'.mp hf
    exact ⟨call, by rw [dispatchPacket, hcall]; rfl⟩
  have hstop : ∀ (s : List (Invocation ν)) f,
      (dispatchPacket services data s (packetOf f)).2 = false ↔
        invocationOf services data (packetOf f) = none := by
    intro s f
    unfold dispatchPacket
    cases invocationOf services data (packetOf f) <;> simp
  have hreads := (onMessage_reads order (dispatchPacket services data)).chunking_quiet_iff
    (s := calls) h (q := fun _ f => invocationOf services data (packetOf f) = none) hquiet hloud
  rw [SameDeliveries, hreads]
  simp only [hstop]

/-- The exact condition, for the two ends of a connection. -/
theorem sameDeliveries_iff (order : ByteOrder) (data : Codec RaftRpcData)
    (services : ServiceMap ν) (ch : RaftRpcChannel μ) (calls : List (Invocation ν))
    (frames : List Bytes) (h : ∀ f ∈ frames, IsFrame order f) :
    (SameDeliveries (onMessage order (RaftRpcChannel.handlePacket data)) (·.runs) ch
        frames.flatten ↔
      ∀ pre f post, frames = pre ++ f :: post →
        ¬ RaftRpcChannel.Answers data
          (RaftRpcChannel.leftPending data ch.pendingRequests pre) (packetOf f) →
        ∀ g ∈ post, RaftRpcChannel.requestOf data
          (RaftRpcChannel.leftPending data ch.pendingRequests pre) (packetOf g) = none) ∧
    (SameDeliveries (onMessage order (dispatchPacket services data)) id calls frames.flatten ↔
      ∀ pre f post, frames = pre ++ f :: post → invocationOf services data (packetOf f) = none →
        ∀ g ∈ post, invocationOf services data (packetOf g) = none) :=
  ⟨channel_deliveries data ch h, dispatcher_deliveries services calls h⟩

end Deliveries

/-! ## A late response -/

def voteMethod : MethodCall Unit where
  serviceName := (voteData 0).serviceName
  methodName := (voteData 0).methodName
  request := some []
  response := fun bs => if bs = [] then some () else none

/-- A channel that has made two calls, of which the first has timed out. -/
def lateChannel : RaftRpcChannel Unit :=
  let ch := RaftRpcChannel.init.onConnection true
  let ch := ch.callMethod .little (voteCodec [1, 2]) voteMethod
  let ch := ch.callMethod .little (voteCodec [1, 2]) voteMethod
  ch.handleTimeout 1

theorem lateChannel_first : RaftRpcChannel.requestOf (voteCodec [1, 2])
    lateChannel.pendingRequests (packetOf (packFrame .little (votePacket 1))) = none := by
  rw [packetOf_packFrame]
  rfl

theorem lateChannel_second : RaftRpcChannel.requestOf (voteCodec [1, 2])
    lateChannel.pendingRequests (packetOf (packFrame .little (votePacket 2))) =
      some ({ serviceName := (voteData 2).serviceName
              methodName := (voteData 2).methodName
              sequenceId := 2
              payload := [] },
        { response := voteMethod.response, done := 1, timerId := 1 }) := by
  rw [packetOf_packFrame]
  rfl

theorem votePacket_isFrame {n : Nat} : IsFrame .little (packFrame .little (votePacket n)) := by
  apply packFrame_isFrame
  show 16 + 35 < 2 ^ 32
  decide

/-- The second response is not taken when it is read together with the late first one. -/
theorem lateChannel_deliveries :
    ¬ SameDeliveries (onMessage .little (RaftRpcChannel.handlePacket (voteCodec [1, 2])))
      (·.runs) lateChannel
      (packFrame .little (votePacket 1) ++ packFrame .little (votePacket 2)) := by
  intro hall
  have hframes : ∀ f ∈ [packFrame .little (votePacket 1), packFrame .little (votePacket 2)],
      IsFrame .little f := by
    intro f hf
    simp only [List.mem_cons, List.not_mem_nil, or_false] at hf
    rcases hf with rfl | rfl <;> exact votePacket_isFrame
  have hiff := channel_deliveries (voteCodec [1, 2]) lateChannel hframes
  have hstream : [packFrame .little (votePacket 1), packFrame .little (votePacket 2)].flatten =
      packFrame .little (votePacket 1) ++ packFrame .little (votePacket 2) := by simp
  rw [hstream] at hiff
  have hnone := hiff.mp hall [] _ _ rfl (by
    rintro ⟨u, context, m, hr, _⟩
    exact nomatch lateChannel_first.symm.trans hr) _ List.mem_cons_self
  exact nomatch lateChannel_second.symm.trans hnone

/-- In the other order the cut makes no difference. -/
theorem sameDeliveries_late :
    SameDeliveries (onMessage .little (RaftRpcChannel.handlePacket (voteCodec [1, 2])))
      (·.runs) lateChannel
      [packFrame .little (votePacket 2), packFrame .little (votePacket 1)].flatten := by
  apply (sameDeliveries_iff .little (voteCodec [1, 2]) voteServices lateChannel []
    [packFrame .little (votePacket 2), packFrame .little (votePacket 1)] ?_).1.mpr
  · intro pre f post hsplit hstop
    cases pre with
    | nil =>
      obtain ⟨rfl, rfl⟩ := List.cons.inj hsplit
      exact absurd ⟨_, _, (), lateChannel_second, rfl⟩ hstop
    | cons g pre =>
      have hlen := congrArg List.length hsplit
      have hpost : post = [] := by
        apply List.eq_nil_of_length_eq_zero
        simp only [List.length_cons, List.length_append, List.length_nil] at hlen
        omega
      rw [hpost]
      exact fun g hg => absurd hg List.not_mem_nil
  · intro f hf
    simp only [List.mem_cons, List.not_mem_nil, or_false] at hf
    rcases hf with rfl | rfl <;> exact votePacket_isFrame

end Rpc

end WWRaftKV
