/-
The two ends of a connection, each against what the other end has sent.

At the dispatcher's end the buffer and the bytes on the way are the frames of calls whose
numbers ascend.  At the channel's end they are frames of answers.  An early return of a
receive loop leaves whole frames in the buffer, so the buffer may hold any number of them.
-/
import WWRaftKV.Rpc.Exchange

namespace WWRaftKV

namespace Rpc

namespace Exchange

variable {ν μ : Type} {p : Protocol ν μ} {made made' : List (Call ν × Nat)} {l k : Nat}
  {f : Bytes} {inv : Invocation ν} {link : Link ν}

/-! ## Frames of calls -/

/-- The frame of the call with the number `k`, made on the connection `l`. -/
def RequestFrame (p : Protocol ν μ) (made : List (Call ν × Nat)) (l k : Nat) (f : Bytes) : Prop :=
  ∃ (c : Call ν) (m : Method ν μ), made[k]? = some (c, l) ∧
    p.methods c.serviceName c.methodName = some m ∧
    callFrame p.order p.data m.request.serialize (c.under (k + 1)) = some f ∧ f.length < 2 ^ 32

theorem getElem?_mono {c : Call ν × Nat} (hmade : made <+: made') (h : made[k]? = some c) :
    made'[k]? = some c := by
  obtain ⟨more, rfl⟩ := hmade
  have hk := (List.getElem?_eq_some_iff.mp h).1
  rwa [List.getElem?_append_left hk]

theorem RequestFrame.mono (hmade : made <+: made') (h : RequestFrame p made l k f) :
    RequestFrame p made' l k f := by
  obtain ⟨c, m, hc, hm, hf, hlen⟩ := h
  exact ⟨c, m, getElem?_mono hmade hc, hm, hf, hlen⟩

theorem RequestFrame.isFrame (h : RequestFrame p made l k f) : IsFrame p.order f := by
  obtain ⟨c, m, -, -, hf, hlen⟩ := h
  exact callFrame_isFrame hf hlen

theorem RequestFrame.lt (h : RequestFrame p made l k f) : k < made.length := by
  obtain ⟨c, m, hc, -⟩ := h
  exact (List.getElem?_eq_some_iff.mp hc).1

theorem MadeOn.mono (hmade : made <+: made') (h : MadeOn made l inv) : MadeOn made' l inv := by
  obtain ⟨k, c, hc, hinv⟩ := h
  exact ⟨k, c, getElem?_mono hmade hc, hinv⟩

theorem MadeOn.le (h : MadeOn made l inv) : inv.sequenceId ≤ made.length := by
  obtain ⟨k, c, hc, rfl⟩ := h
  exact (List.getElem?_eq_some_iff.mp hc).1

/-- A sequence id belongs to one call on one connection. -/
theorem MadeOn.unique {l' : Nat} {inv' : Invocation ν} (h : MadeOn made l inv)
    (h' : MadeOn made l' inv') (hid : inv.sequenceId = inv'.sequenceId) : l = l' ∧ inv = inv' := by
  obtain ⟨k, c, hc, rfl⟩ := h
  obtain ⟨k', c', hc', rfl⟩ := h'
  obtain rfl : k = k' := Nat.succ.inj hid
  rw [hc] at hc'
  obtain ⟨rfl, rfl⟩ := Prod.mk.inj (Option.some.inj hc')
  exact ⟨rfl, rfl⟩

/-- What the dispatcher makes of the frame of a call of a service that it has. -/
theorem invocationOf_request (hp : p.Lawful) {c : Call ν} {m : Method ν μ}
    (hm : p.methods c.serviceName c.methodName = some m)
    (hf : callFrame p.order p.data m.request.serialize (c.under (k + 1)) = some f)
    (hreg : p.registered c.serviceName = true) :
    invocationOf p.serviceMap p.data (packetOf f) = some (c.under (k + 1)) := by
  apply invocationOf_callFrame hp.data _ hf
  refine ⟨fun name => (p.methods c.serviceName name).map (·.request.parse),
    m.request.parse, ?_, ?_, ?_⟩
  · simp [Protocol.serviceMap, Call.under, hreg]
  · simp [Call.under, hm]
  · exact fun args hargs => (hp.methods _ _ m hm).1 _ args hargs

/-- What the dispatcher makes of the frame of a call is this call, or nothing. -/
theorem RequestFrame.invocation (hp : p.Lawful) (h : RequestFrame p made l k f)
    (hinv : invocationOf p.serviceMap p.data (packetOf f) = some inv) :
    MadeOn made l inv ∧ inv.sequenceId = k + 1 := by
  obtain ⟨c, m, hc, hm, hf, -⟩ := h
  by_cases hreg : p.registered c.serviceName = true
  · rw [invocationOf_request hp hm hf hreg] at hinv
    obtain rfl := Option.some.inj hinv
    exact ⟨⟨k, c, hc, rfl⟩, rfl⟩
  · simp only [callFrame, Option.bind_eq_bind, Option.bind_eq_some_iff, Option.some.injEq] at hf
    obtain ⟨args, hargs, packet, hpacket, rfl⟩ := hf
    rw [packetOf_packFrame] at hinv
    have hnone : invocationOf p.serviceMap p.data packet = none := by
      have hread := deserialize_serialize hp.data hpacket
      simp only [Call.under] at hread
      simp [invocationOf, hread, Protocol.serviceMap, hreg]
    rw [hnone] at hinv
    cases hinv

/-! ## The dispatcher's end -/

/-- `qs` are the calls on the way, with their numbers. -/
structure LinkInv (p : Protocol ν μ) (made : List (Call ν × Nat)) (l : Nat) (link : Link ν) :
    Prop where
  wire : ∃ qs : List (Nat × Bytes), link.buffer ++ link.toServer = (qs.map (·.2)).flatten ∧
    (∀ q ∈ qs, RequestFrame p made l q.1 q.2) ∧
    List.Pairwise (· < ·) (link.calls.map (·.sequenceId) ++ qs.map fun q => q.1 + 1)
  calls : ∀ inv ∈ link.calls, MadeOn made l inv
  jobs : link.jobs.Sublist link.calls

theorem linkInv_init : LinkInv p made l Link.init where
  wire := ⟨[], rfl, by simp, List.Pairwise.nil⟩
  calls := by simp [Link.init]
  jobs := List.Sublist.refl _

theorem LinkInv.mono (hmade : made <+: made') (h : LinkInv p made l link) :
    LinkInv p made' l link := by
  obtain ⟨qs, hwire, hqs, hasc⟩ := h.wire
  exact {
    wire := ⟨qs, hwire, fun q hq => (hqs q hq).mono hmade, hasc⟩
    calls := fun inv hinv => (h.calls inv hinv).mono hmade
    jobs := h.jobs }

/-- The calls of a connection are made in the order of their ids, each once. -/
theorem LinkInv.ascending (h : LinkInv p made l link) :
    List.Pairwise (· < ·) (link.calls.map (·.sequenceId)) := by
  obtain ⟨qs, -, -, hasc⟩ := h.wire
  exact (List.pairwise_append.mp hasc).1

/-- What the dispatcher makes of frames of calls. -/
theorem run_dispatch (hp : p.Lawful) {qs : List (Nat × Bytes)}
    (hqs : ∀ q ∈ qs, RequestFrame p made l q.1 q.2) (calls : List (Invocation ν)) :
    ∃ new, Framing.run (fun s f => dispatchPacket p.serviceMap p.data s (packetOf f)) calls
        (qs.map (·.2)) = calls ++ new ∧
      (new.map (·.sequenceId)).Sublist (qs.map fun q => q.1 + 1) ∧
      ∀ inv ∈ new, MadeOn made l inv := by
  induction qs generalizing calls with
  | nil => exact ⟨[], (List.append_nil _).symm, List.Sublist.refl _, by simp⟩
  | cons q qs ih =>
    have hrest := ih fun q' hq' => hqs q' (List.mem_cons_of_mem _ hq')
    rw [List.map_cons, Framing.run_cons, dispatchPacket]
    cases hinv : invocationOf p.serviceMap p.data (packetOf q.2) with
    | none =>
      obtain ⟨new, hrun, hsub, hnew⟩ := hrest calls
      exact ⟨new, hrun, hsub.cons _, hnew⟩
    | some inv =>
      obtain ⟨hmade, hid⟩ := (hqs q List.mem_cons_self).invocation hp hinv
      obtain ⟨new, hrun, hsub, hnew⟩ := hrest (calls ++ [inv])
      refine ⟨inv :: new, ?_, ?_, ?_⟩
      · rw [hrun, List.append_assoc]
        rfl
      · rw [List.map_cons, List.map_cons, hid]
        exact hsub.cons_cons _
      · intro inv' hinv'
        rcases List.mem_cons.mp hinv' with rfl | hinv'
        · exact hmade
        · exact hnew inv' hinv'

/-- The receive loop of the dispatcher, on any part of what is on the way. -/
theorem LinkInv.onMessage (hp : p.Lawful) (h : LinkInv p made l link) (n : Nat) :
    ∃ link', link.onMessage p n = some link' ∧ LinkInv p made l link' ∧
      link'.toClient = link.toClient ∧ ∃ new, link'.jobs = link.jobs ++ new ∧
        link'.calls = link.calls ++ new := by
  obtain ⟨qs, hwire, hqs, hasc⟩ := h.wire
  have hsplit : link.buffer ++ link.toServer.take n ++ link.toServer.drop n =
      (qs.map (·.2)).flatten := by
    rw [List.append_assoc, List.take_append_drop, hwire]
  have hframes : ∀ f ∈ qs.map (·.2), IsFrame p.order f := by
    intro f hf
    obtain ⟨q, hq, rfl⟩ := List.mem_map.mp hf
    exact (hqs q hq).isFrame
  obtain ⟨gs, fs, buffer, hcut, hbuffer, hread, -⟩ :=
    (onMessage_reads p.order (dispatchPacket p.serviceMap p.data)).read_frames (s := [])
      hframes ⟨_, hsplit⟩
  obtain ⟨rs, ts, rfl, rfl, rfl⟩ := List.map_eq_append_iff.mp hcut
  obtain ⟨new, hrun, hsub, hnew⟩ :=
    run_dispatch hp (fun q hq => hqs q (List.mem_append_left _ hq)) []
  rw [hrun, List.nil_append] at hread
  refine ⟨{ link with
    toServer := link.toServer.drop n
    buffer := buffer
    calls := link.calls ++ new
    jobs := link.jobs ++ new }, ?_, ?_, rfl, new, rfl, rfl⟩
  · rw [Link.onMessage, hread]
    rfl
  constructor
  case wire =>
    refine ⟨ts, ?_, fun q hq => hqs q (List.mem_append_right _ hq), ?_⟩
    · rw [hbuffer, List.append_assoc, List.map_append, List.flatten_append] at hsplit
      exact List.append_cancel_left hsplit
    · apply List.Pairwise.sublist _ hasc
      show List.Sublist ((link.calls ++ new).map _ ++ _) _
      rw [List.map_append, List.map_append, List.append_assoc]
      exact (List.Sublist.refl _).append (hsub.append (List.Sublist.refl _))
  case calls =>
    intro inv hinv
    rcases List.mem_append.mp hinv with hinv | hinv
    · exact h.calls inv hinv
    · exact hnew inv hinv
  case jobs => exact h.jobs.append (List.Sublist.refl _)

/-- A call of the client is sent. -/
theorem LinkInv.request (h : LinkInv p made l link) {c : Call ν}
    (hf : RequestFrame p (made ++ [(c, l)]) l made.length f) :
    LinkInv p (made ++ [(c, l)]) l (link.request f) := by
  have hmade := List.prefix_append made [(c, l)]
  obtain ⟨qs, hwire, hqs, hasc⟩ := h.wire
  constructor
  case wire =>
    refine ⟨qs ++ [(made.length, f)], ?_, ?_, ?_⟩
    · rw [Link.request, ← List.append_assoc, hwire, List.map_append, List.flatten_append]
      simp
    · intro q hq
      rcases List.mem_append.mp hq with hq | hq
      · exact (hqs q hq).mono hmade
      · rw [List.mem_singleton.mp hq]
        exact hf
    · rw [List.map_append, ← List.append_assoc]
      apply List.pairwise_append.mpr ⟨hasc, List.pairwise_singleton _ _, ?_⟩
      intro a ha b hb
      have hb' : b = made.length + 1 := by simpa using hb
      rcases List.mem_append.mp ha with ha | ha
      · obtain ⟨inv, hinv, rfl⟩ := List.mem_map.mp ha
        have := (h.calls inv hinv).le
        omega
      · obtain ⟨q, hq, rfl⟩ := List.mem_map.mp ha
        have := (hqs q hq).lt
        omega
  case calls => exact fun inv hinv => (h.calls inv hinv).mono hmade
  case jobs => exact h.jobs

/-- The closure of a call is run, and what goes back makes no difference here. -/
theorem LinkInv.finish (h : LinkInv p made l link) (job : Nat) (shut : Bool) (toClient : Bytes) :
    LinkInv p made l { link with
      jobs := link.jobs.eraseIdx job
      shut := shut
      toClient := toClient } where
  wire := h.wire
  calls := h.calls
  jobs := (List.eraseIdx_sublist ..).trans h.jobs

theorem LinkInv.sendResponse (h : LinkInv p made l link) (inv : Invocation ν) (m : μ) :
    LinkInv p made l (link.sendResponse p inv m) where
  wire := by
    rw [Link.sendResponse_toServer, Link.sendResponse_calls]
    exact h.wire
  calls := by
    rw [Link.sendResponse_calls]
    exact h.calls
  jobs := by
    rw [Link.sendResponse_jobs, Link.sendResponse_calls]
    exact h.jobs

/-! ## The channel's end -/

variable {answers answers' : List (Invocation ν × μ)} {client : Session μ}

/-- The frame of an answer. -/
def ResponseFrame (p : Protocol ν μ) (answers : List (Invocation ν × μ)) (f : Bytes) : Prop :=
  ∃ a ∈ answers, f = p.responseFrame a.1 a.2 ∧ f.length < 2 ^ 32

theorem ResponseFrame.mono (ha : answers ⊆ answers') (h : ResponseFrame p answers f) :
    ResponseFrame p answers' f := by
  obtain ⟨a, hmem, hf, hlen⟩ := h
  exact ⟨a, ha hmem, hf, hlen⟩

theorem ResponseFrame.isFrame (h : ResponseFrame p answers f) : IsFrame p.order f := by
  obtain ⟨a, -, rfl, hlen⟩ := h
  rw [Protocol.responseFrame, packFrame_length] at hlen
  exact packFrame_isFrame p.order hlen

/-- A closure, its call and the id of its call have one number between them, and what a
closure has been run with is an answer to its call. -/
structure ClientInv (p : Protocol ν μ) (made : List (Call ν × Nat))
    (answers : List (Invocation ν × μ)) (client : Session μ) : Prop where
  sound : client.Sound
  calls : client.channel.calls = made.length
  next : client.channel.sequenceId = made.length + 1
  issued : client.issued = (List.range made.length).map fun k => (k, k + 1)
  pending : ∀ n context, client.channel.pendingRequests.find n = some context →
    ∃ (c : Call ν) (l : Nat) (m : Method ν μ), made[context.done]? = some (c, l) ∧
      p.methods c.serviceName c.methodName = some m ∧ context.response = m.response.parse
  runs : ∀ k m, (k, .response m) ∈ client.channel.runs →
    ∃ (c : Call ν) (l : Nat), made[k]? = some (c, l) ∧ (c.under (k + 1), m) ∈ answers

theorem clientInv_init : ClientInv p [] answers (Session.init : Session μ) where
  sound := Session.init_sound
  calls := rfl
  next := rfl
  issued := rfl
  pending := by simp [Session.init, RaftRpcChannel.init]
  runs := by simp [Session.init, RaftRpcChannel.init]

theorem ClientInv.mono (ha : answers ⊆ answers') (h : ClientInv p made answers client) :
    ClientInv p made answers' client where
  sound := h.sound
  calls := h.calls
  next := h.next
  issued := h.issued
  pending := h.pending
  runs := by
    intro k m hrun
    obtain ⟨c, l, hc, hmem⟩ := h.runs k m hrun
    exact ⟨c, l, hc, ha hmem⟩

/-- The id of a pending request is the number of its closure and one. -/
theorem ClientInv.pending_id (h : ClientInv p made answers client) {n : Nat}
    {context : CallMethodContext μ}
    (hc : client.channel.pendingRequests.find n = some context) : n = context.done + 1 := by
  have hmem := (h.sound.entry n context hc).1
  rw [h.issued] at hmem
  obtain ⟨k, -, hk⟩ := List.mem_map.mp hmem
  obtain ⟨rfl, rfl⟩ := Prod.mk.inj hk
  rfl

/-- The next id is not in use. -/
theorem ClientInv.next_free (h : ClientInv p made answers client) :
    client.channel.pendingRequests.find client.channel.sequenceId = none := by
  cases hc : client.channel.pendingRequests.find client.channel.sequenceId with
  | none => rfl
  | some context =>
    exfalso
    have hid := h.pending_id hc
    have hlt := h.sound.number _ (h.sound.entry _ _ hc).1
    rw [h.next] at hid
    rw [h.calls] at hlt
    dsimp only at hlt
    omega

/-- An answer that finds a pending request is an answer to the call of this request, and
its payload can be parsed. -/
theorem ClientInv.requestOf (hp : p.Lawful) (h : ClientInv p made answers client)
    (hanswers : ∀ a ∈ answers, ∃ l, MadeOn made l a.1) (hf : ResponseFrame p answers f)
    {u : Unpacked} {context : CallMethodContext μ}
    (hr : RaftRpcChannel.requestOf p.data client.channel.pendingRequests (packetOf f) =
      some (u, context)) :
    ∃ (c : Call ν) (l : Nat) (m : μ), made[context.done]? = some (c, l) ∧
      (c.under (context.done + 1), m) ∈ answers ∧ context.response u.payload = some m := by
  obtain ⟨⟨inv, m⟩, hmem, rfl, -⟩ := hf
  simp only [RaftRpcChannel.requestOf, Option.bind_eq_bind, Option.bind_eq_some_iff,
    Option.some.injEq, Prod.mk.injEq] at hr
  obtain ⟨_, hu, found, hcontext, rfl, rfl⟩ := hr
  have hid := h.pending_id hcontext
  obtain ⟨c, l, m', hc, hm', hparse⟩ := h.pending _ _ hcontext
  rw [Protocol.responseFrame, packetOf_packFrame] at hu
  cases hpacket : p.responsePacket inv m with
  | none =>
    -- an empty packet has the id of no call
    exfalso
    rw [hpacket, Option.getD_none] at hu
    simp only [deserialize, Option.bind_eq_bind, Option.bind_eq_some_iff] at hu
    obtain ⟨d, hd, hu⟩ := hu
    have hzero := hp.blank d hd
    split at hu
    · cases hu
    · obtain rfl := Option.some.inj hu
      exact Nat.succ_ne_zero _ (hid.symm.trans hzero)
  | some packet =>
    rw [hpacket, Option.getD_some] at hu
    simp only [Protocol.responsePacket, Option.bind_eq_bind, Option.bind_eq_some_iff] at hpacket
    obtain ⟨m'', hm'', args, hargs, hpacket⟩ := hpacket
    rw [deserialize_serialize hp.data hpacket] at hu
    obtain rfl := Option.some.inj hu
    obtain ⟨l', k, c', hc', hinv⟩ := hanswers _ hmem
    dsimp only at hinv
    subst hinv
    obtain rfl : k = found.done := Nat.succ.inj hid
    rw [hc] at hc'
    obtain ⟨rfl, rfl⟩ := Prod.mk.inj (Option.some.inj hc')
    refine ⟨c, l, m, hc, hmem, ?_⟩
    simp only [Call.under] at hm''
    rw [hm'] at hm''
    obtain rfl := Option.some.inj hm''
    rw [hparse]
    exact (hp.methods _ _ _ hm').2 _ _ hargs

/-- A packet of an answer. -/
theorem ClientInv.onPacket (hp : p.Lawful) (h : ClientInv p made answers client)
    (hanswers : ∀ a ∈ answers, ∃ l, MadeOn made l a.1) (hf : ResponseFrame p answers f) :
    ClientInv p made answers (client.onPacket p.order p.data (packetOf f)).1 := by
  have hstep := client.onPacket_step p.order p.data (packetOf f)
  have hparses : client.InOrder p.data (.response (packetOf f)) := by
    intro u context hr
    obtain ⟨_, _, m, _, _, hm⟩ := h.requestOf hp hanswers hf hr
    rw [hm]
    rfl
  have hsound := h.sound.step hparses hstep
  have hchannel : (client.onPacket p.order p.data (packetOf f)).1.channel =
      (client.channel.handlePacket p.data (packetOf f)).1 := rfl
  have hissued : (client.onPacket p.order p.data (packetOf f)).1.issued = client.issued := rfl
  cases hr : RaftRpcChannel.requestOf p.data client.channel.pendingRequests (packetOf f) with
  | none =>
    rw [RaftRpcChannel.handlePacket_quiet hr] at hchannel
    constructor
    case sound => exact hsound
    case issued => exact h.issued
    all_goals rw [hchannel]
    case calls => exact h.calls
    case next => exact h.next
    case pending => exact h.pending
    case runs => exact h.runs
  | some r =>
    obtain ⟨u, context⟩ := r
    obtain ⟨c, l, m, hc, hmem, hm⟩ := h.requestOf hp hanswers hf hr
    unfold RaftRpcChannel.handlePacket at hchannel
    rw [hr] at hchannel
    dsimp only at hchannel
    rw [hm] at hchannel
    dsimp only at hchannel
    constructor
    case sound => exact hsound
    case issued => exact h.issued
    all_goals rw [hchannel]
    case calls => exact h.calls
    case next => exact h.next
    case pending =>
      intro n context' hn
      have hfind : (client.channel.pendingRequests.erase u.sequenceId).find n = some context' := hn
      rw [PendingRequests.find_erase] at hfind
      split at hfind
      · cases hfind
      · exact h.pending n context' hfind
    case runs =>
      intro k m' hrun
      rcases List.mem_append.mp hrun with hrun | hrun
      · exact h.runs k m' hrun
      · obtain ⟨rfl, hresponse⟩ := Prod.mk.inj (List.mem_singleton.mp hrun)
        obtain rfl := Outcome.response.inj hresponse
        exact ⟨c, l, hc, hmem⟩

/-- Any frames of answers. -/
theorem ClientInv.run (hp : p.Lawful) (hanswers : ∀ a ∈ answers, ∃ l, MadeOn made l a.1)
    {fs : List Bytes} (hfs : ∀ f ∈ fs, ResponseFrame p answers f)
    (h : ClientInv p made answers client) :
    ClientInv p made answers
      (Framing.run (fun s f => Session.onPacket p.order p.data s (packetOf f)) client fs) := by
  induction fs generalizing client with
  | nil => exact h
  | cons f fs ih =>
    rw [Framing.run_cons]
    apply ih fun g hg => hfs g (List.mem_cons_of_mem _ hg)
    exact h.onPacket hp hanswers (hfs f List.mem_cons_self)

/-- What a closure has been run with, after it has been run with a failure as well. -/
theorem mem_runs_failed {runs : List (Nat × Outcome μ)} {m : μ} {k n : Nat} {reason : String}
    (h : (k, Outcome.response m) ∈ runs ++ [(n, Outcome.failed reason)]) :
    (k, .response m) ∈ runs := by
  rcases List.mem_append.mp h with h | h
  · exact h
  · cases (Prod.mk.inj (List.mem_singleton.mp h)).2

/-- The frame of a call is what `CallMethod` sends for it. -/
theorem callFrame_under {order : ByteOrder} {data : Codec RaftRpcData} {c : Call ν}
    {m : Method ν μ} {n : Nat} :
    callFrame order data m.request.serialize (c.under n) =
      ((c.methodCall m).request.bind (serialize data (c.methodCall m).serviceName
        (c.methodCall m).methodName n)).map (packFrame order) := by
  simp only [callFrame, Call.methodCall, Call.under]
  cases m.request.serialize c.request with
  | none => rfl
  | some args =>
    simp only [Option.bind_eq_bind, Option.bind_some]
    cases serialize data c.serviceName c.methodName n args <;> rfl

/-- A call: its frame is sent and its request is pending, or neither. -/
theorem ClientInv.call (h : ClientInv p made answers client) {c : Call ν} {m : Method ν μ}
    (hm : p.methods c.serviceName c.methodName = some m) (hids : made.length + 2 < 2 ^ 64)
    (l : Nat) :
    ∃ client', client.step p.order p.data (.call (c.methodCall m)) = some client' ∧
      ClientInv p (made ++ [(c, l)]) answers client' ∧
      client'.channel.connected = client.channel.connected ∧
      ((client'.channel.sent.drop client.channel.sent.length = [] ∧
          client'.channel.pendingRequests = client.channel.pendingRequests) ∨
        ∃ f context, callFrame p.order p.data m.request.serialize (c.under (made.length + 1)) =
            some f ∧ client.channel.connected = true ∧
          client'.channel.sent.drop client.channel.sent.length = [f] ∧
          client'.channel.pendingRequests =
            client.channel.pendingRequests.assign (made.length + 1) context) := by
  refine ⟨_, rfl, ?_⟩
  have hstep : client.step p.order p.data (.call (c.methodCall m)) = some _ := rfl
  have hsound := h.sound.step (e := .call (c.methodCall m)) h.next_free hstep
  have hmade := List.prefix_append made [(c, l)]
  have hlast : (made ++ [(c, l)])[made.length]? = some (c, l) := by simp
  have hissued : client.issued ++ [(client.channel.calls, client.channel.sequenceId)] =
      (List.range (made ++ [(c, l)]).length).map fun k => (k, k + 1) := by
    rw [List.length_append, List.length_singleton, List.range_succ, List.map_append, h.issued,
      h.next, h.calls]
    rfl
  have hnext : (client.channel.sequenceId + 1) % 2 ^ 64 = made.length + 1 + 1 := by
    rw [h.next]
    exact Nat.mod_eq_of_lt hids
  have hold : ∀ n context, client.channel.pendingRequests.find n = some context →
      ∃ (c' : Call ν) (l' : Nat) (m' : Method ν μ),
        (made ++ [(c, l)])[context.done]? = some (c', l') ∧
        p.methods c'.serviceName c'.methodName = some m' ∧
        context.response = m'.response.parse := by
    intro n context hn
    obtain ⟨c', l', m', hc', hm', hparse⟩ := h.pending n context hn
    exact ⟨c', l', m', getElem?_mono hmade hc', hm', hparse⟩
  have hruns : ∀ k m', (k, .response m') ∈ client.channel.runs →
      ∃ (c' : Call ν) (l' : Nat), (made ++ [(c, l)])[k]? = some (c', l') ∧
        (c'.under (k + 1), m') ∈ answers := by
    intro k m' hrun
    obtain ⟨c', l', hc', hmem⟩ := h.runs k m' hrun
    exact ⟨c', l', getElem?_mono hmade hc', hmem⟩
  have hcalls : client.channel.calls + 1 = (made ++ [(c, l)]).length := by
    rw [List.length_append, List.length_singleton, h.calls]
  have hsame : callFrame p.order p.data m.request.serialize (c.under (made.length + 1)) =
      ((c.methodCall m).request.bind (serialize p.data (c.methodCall m).serviceName
        (c.methodCall m).methodName client.channel.sequenceId)).map (packFrame p.order) := by
    rw [h.next]
    exact callFrame_under
  rw [hsame]
  unfold RaftRpcChannel.callMethod at hsound ⊢
  dsimp only at hsound ⊢
  cases hpacket : (c.methodCall m).request.bind (serialize p.data (c.methodCall m).serviceName
      (c.methodCall m).methodName client.channel.sequenceId) with
  | none =>
    rw [hpacket] at hsound
    exact ⟨{
      sound := hsound
      calls := hcalls
      next := by rw [List.length_append]; exact hnext
      issued := hissued
      pending := hold
      runs := fun k m' hrun => hruns k m' (mem_runs_failed hrun) }, rfl,
      .inl ⟨List.drop_length, rfl⟩⟩
  | some packet =>
    rw [hpacket] at hsound
    dsimp only at hsound ⊢
    cases hconnected : client.channel.connected with
    | false =>
      rw [hconnected] at hsound
      exact ⟨{
        sound := hsound
        calls := hcalls
        next := by rw [List.length_append]; exact hnext
        issued := hissued
        pending := hold
        runs := fun k m' hrun => hruns k m' (mem_runs_failed hrun) }, rfl,
      .inl ⟨List.drop_length, rfl⟩⟩
    | true =>
      rw [hconnected] at hsound
      refine ⟨{
        sound := hsound
        calls := hcalls
        next := by rw [List.length_append]; exact hnext
        issued := hissued
        pending := ?_
        runs := hruns }, rfl, .inr ⟨packFrame p.order packet,
          { response := (c.methodCall m).response
            done := client.channel.calls
            timerId := client.channel.calls }, rfl, rfl, ?_, ?_⟩⟩
      · intro n context hn
        dsimp only at hn
        rw [if_pos rfl] at hn
        dsimp only at hn
        rw [PendingRequests.find_assign] at hn
        split at hn
        · obtain rfl := Option.some.inj hn
          refine ⟨c, l, m, ?_, hm, rfl⟩
          dsimp only
          rw [h.calls]
          exact hlast
        · exact hold n context hn
      · exact List.drop_left
      · rw [← h.next]
        rfl

theorem ClientInv.timeout (h : ClientInv p made answers client) {timerId : Nat}
    {client' : Session μ} (hs : client.step p.order p.data (.timeout timerId) = some client') :
    ClientInv p made answers client' := by
  have hsound := h.sound.step (e := .timeout timerId) trivial hs
  simp only [Session.step] at hs
  cases hf : client.channel.timers.find? fun t => t.1 = timerId with
  | none =>
    rw [hf] at hs
    cases hs
  | some armed =>
    rw [hf] at hs
    obtain rfl := Option.some.inj hs
    obtain ⟨context, hc, -⟩ := h.sound.armed armed (List.mem_of_find?_eq_some hf)
    have hfound : (client.channel.cancel timerId).pendingRequests.find armed.2 = some context := hc
    unfold RaftRpcChannel.handleTimeout at hsound ⊢
    rw [hfound] at hsound ⊢
    constructor
    case sound => exact hsound
    case calls => exact h.calls
    case next => exact h.next
    case issued => exact h.issued
    case pending =>
      intro n context' hn
      have hfind : (client.channel.pendingRequests.erase armed.2).find n = some context' := hn
      rw [PendingRequests.find_erase] at hfind
      split at hfind
      · cases hfind
      · exact h.pending n context' hfind
    case runs => exact fun k m hrun => h.runs k m (mem_runs_failed hrun)

theorem ClientInv.connection (h : ClientInv p made answers client) (connected : Bool) :
    ∃ client', client.step p.order p.data (.connection connected) = some client' ∧
      ClientInv p made answers client' ∧ client'.channel.connected = connected := by
  refine ⟨_, rfl, ?_⟩
  have hstep : client.step p.order p.data (.connection connected) = some _ := rfl
  have hsound := h.sound.step (e := .connection connected) trivial hstep
  cases connected with
  | true => exact ⟨⟨hsound, h.calls, h.next, h.issued, h.pending, h.runs⟩, rfl⟩
  | false =>
    rw [RaftRpcChannel.onConnection_closed] at hsound ⊢
    constructor
    · constructor
      case sound => exact hsound
      case calls => exact h.calls
      case next => exact h.next
      case issued => exact h.issued
      case pending => exact fun n context hn => nomatch hn
      case runs =>
        intro k m hrun
        rcases List.mem_append.mp hrun with hrun | hrun
        · exact h.runs k m hrun
        · obtain ⟨e, -, he⟩ := List.mem_map.mp hrun
          cases (Prod.mk.inj he).2
    · rfl

end Exchange

end Rpc

end WWRaftKV
