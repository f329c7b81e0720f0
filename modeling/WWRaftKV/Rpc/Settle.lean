/-
Runs in which no timer fires: nothing is left over.

The response of a call whose timer has fired makes the receive loop return, and the frames
behind it stay in the buffer until more bytes come.  Without that, every frame on the way
back names a pending request, and the pending requests are just the calls on the way to the
dispatcher, in hand there, or on the way back.
-/
import WWRaftKV.Rpc.Delivery

namespace WWRaftKV

namespace Rpc

namespace Exchange

variable {ν μ : Type} {p : Protocol ν μ} {s t : Exchange ν μ}

/-- No timer fires, the calls are those of services that the dispatcher has, and every
closure is run with a response that can be serialized. -/
def Calm (p : Protocol ν μ) (s : Exchange ν μ) : ExchangeEvent ν μ → Prop
  | .call c => p.registered c.serviceName = true
  | .answer l job response => ∃ m ∈ response,
    ∀ inv ∈ (s.links l).jobs[job]?, (p.responsePacket inv m).isSome = true
  | .timeout _ => False
  | _ => True

instance (p : Protocol ν μ) : (s : Exchange ν μ) → (e : ExchangeEvent ν μ) →
    Decidable (Calm p s e)
  | _, .call c => inferInstanceAs (Decidable (p.registered c.serviceName = true))
  | s, .answer l job (some m) => decidable_of_iff
    (∀ inv ∈ (s.links l).jobs[job]?, (p.responsePacket inv m).isSome = true) (by simp [Calm])
  | _, .answer _ _ none => .isFalse (by simp [Calm])
  | _, .timeout _ => .isFalse fun h => h
  | _, .serverReceives _ _ => .isTrue trivial
  | _, .clientReceives _ => .isTrue trivial
  | _, .connection _ => .isTrue trivial

/-! ## To the dispatcher -/

/-- `qs` are the frames of calls that are on the way, with the numbers of the calls.  The
buffer holds less than one of them. -/
structure Upward (p : Protocol ν μ) (made : List (Call ν × Nat)) (l : Nat)
    (qs : List (Nat × Bytes)) (link : Link ν) : Prop where
  wire : link.buffer ++ link.toServer = (qs.map (·.2)).flatten
  frames : ∀ q ∈ qs, RequestFrame p made l q.1 q.2
  asks : ∀ q ∈ qs, (invocationOf p.serviceMap p.data (packetOf q.2)).isSome = true
  waits : Framing.Waits (qs.map (·.2)) link.buffer

section Upward

variable {made made' : List (Call ν × Nat)} {l : Nat} {qs : List (Nat × Bytes)} {link : Link ν}

theorem Upward.mono (hmade : made <+: made') (h : Upward p made l qs link) :
    Upward p made' l qs link :=
  ⟨h.wire, fun q hq => (h.frames q hq).mono hmade, h.asks, h.waits⟩

theorem Upward.isFrame (h : Upward p made l qs link) : ∀ f ∈ qs.map (·.2), IsFrame p.order f := by
  intro f hf
  obtain ⟨q, hq, rfl⟩ := List.mem_map.mp hf
  exact (h.frames q hq).isFrame

theorem isFrame_ne_nil {order : ByteOrder} {f : Bytes} (h : IsFrame order f) : f ≠ [] := by
  rintro rfl
  exact absurd h.size (by decide)

/-- What a dispatcher makes of frames that all ask for a call. -/
theorem run_asks (hp : p.Lawful) (hframes : ∀ q ∈ qs, RequestFrame p made l q.1 q.2)
    (hasks : ∀ q ∈ qs, (invocationOf p.serviceMap p.data (packetOf q.2)).isSome = true)
    (calls : List (Invocation ν)) :
    ∃ new, Framing.run (fun s f => dispatchPacket p.serviceMap p.data s (packetOf f)) calls
        (qs.map (·.2)) = calls ++ new ∧
      new.map (·.sequenceId) = qs.map fun q => q.1 + 1 := by
  induction qs generalizing calls with
  | nil => exact ⟨[], (List.append_nil _).symm, rfl⟩
  | cons q qs ih =>
    obtain ⟨inv, hinv⟩ := Option.isSome_iff_exists.mp (hasks q List.mem_cons_self)
    obtain ⟨-, hid⟩ := (hframes q List.mem_cons_self).invocation hp hinv
    obtain ⟨new, hrun, hnew⟩ := ih (fun q' hq' => hframes q' (List.mem_cons_of_mem _ hq'))
      (fun q' hq' => hasks q' (List.mem_cons_of_mem _ hq')) (calls ++ [inv])
    refine ⟨inv :: new, ?_, ?_⟩
    · rw [List.map_cons, Framing.run_cons, dispatchPacket, hinv]
      dsimp only
      rw [hrun, List.append_assoc]
      rfl
    · rw [List.map_cons, List.map_cons, hid, hnew]

/-- Calls go from the wire into the hands of the services, and none is left in the
buffer. -/
theorem Upward.onMessage (hp : p.Lawful) (h : Upward p made l qs link) (n : Nat) :
    ∃ ts new link', link.onMessage p n = some link' ∧ Upward p made l ts link' ∧
      link'.jobs = link.jobs ++ new ∧
      (qs.map fun q => q.1 + 1) = new.map (·.sequenceId) ++ ts.map (fun q => q.1 + 1) ∧
      link'.toClient = link.toClient ∧ link'.shut = link.shut := by
  have hsplit : link.buffer ++ link.toServer.take n ++ link.toServer.drop n =
      (qs.map (·.2)).flatten := by
    rw [List.append_assoc, List.take_append_drop, h.wire]
  obtain ⟨gs, fs, buffer, hcut, hbuffer, hread, hend⟩ :=
    (onMessage_reads p.order (dispatchPacket p.serviceMap p.data)).read_frames (s := [])
      h.isFrame ⟨_, hsplit⟩
  obtain ⟨rs, ts, rfl, rfl, rfl⟩ := List.map_eq_append_iff.mp hcut
  obtain ⟨new, hrun, hnew⟩ := run_asks hp (fun q hq => h.frames q (List.mem_append_left _ hq))
    (fun q hq => h.asks q (List.mem_append_left _ hq)) []
  rw [hrun, List.nil_append] at hread
  refine ⟨ts, new, { link with
    toServer := link.toServer.drop n
    buffer := buffer
    calls := link.calls ++ new
    jobs := link.jobs ++ new }, ?_, ?_, rfl, by rw [List.map_append, hnew], rfl, rfl⟩
  · rw [Link.onMessage, hread]
    rfl
  constructor
  case wire =>
    rw [hbuffer, List.append_assoc, List.map_append, List.flatten_append] at hsplit
    exact List.append_cancel_left hsplit
  case frames => exact fun q hq => h.frames q (List.mem_append_right _ hq)
  case asks => exact fun q hq => h.asks q (List.mem_append_right _ hq)
  case waits =>
    apply hend.resolve_right
    rintro ⟨pre, f, hpre, hstop⟩
    have hmem : f ∈ rs.map (·.2) := by
      rw [hpre]
      exact List.mem_append_right _ (List.mem_singleton_self _)
    obtain ⟨q, hq, rfl⟩ := List.mem_map.mp hmem
    obtain ⟨inv, hinv⟩ := Option.isSome_iff_exists.mp (h.asks q (List.mem_append_left _ hq))
    simp [dispatchPacket, hinv] at hstop

/-- One more call. -/
theorem Upward.request (h : Upward p made l qs link) {k : Nat} {f : Bytes}
    (hf : RequestFrame p made l k f)
    (hask : (invocationOf p.serviceMap p.data (packetOf f)).isSome = true) :
    Upward p made l (qs ++ [(k, f)]) (link.request f) := by
  have hall : ∀ {P : Nat × Bytes → Prop}, (∀ q ∈ qs, P q) → P (k, f) →
      ∀ q ∈ qs ++ [(k, f)], P q := by
    intro P hqs hone q hq
    rcases List.mem_append.mp hq with hq | hq
    · exact hqs q hq
    · rw [List.mem_singleton.mp hq]
      exact hone
  constructor
  case wire =>
    rw [Link.request, ← List.append_assoc, h.wire, List.map_append, List.flatten_append]
    simp
  case frames => exact hall h.frames hf
  case asks => exact hall h.asks hask
  case waits =>
    rw [List.map_append]
    apply h.waits.append
    intro g hg
    obtain rfl : g = f := by simpa using hg
    exact isFrame_ne_nil hf.isFrame

end Upward

/-! ## To the channel -/

/-- `g` is the response of a call, with its id. -/
def Replies (p : Protocol ν μ) (answers : List (Invocation ν × μ)) (g : Nat × Bytes) : Prop :=
  ∃ a ∈ answers, a.1.sequenceId = g.1 ∧ g.2 = p.responseFrame a.1 a.2 ∧ g.2.length < 2 ^ 32 ∧
    (p.responsePacket a.1 a.2).isSome = true

/-- `gs` are the responses on the way, with the ids of their calls. -/
structure Downward (p : Protocol ν μ) (answers : List (Invocation ν × μ))
    (gs : List (Nat × Bytes)) (buffer toClient : Bytes) : Prop where
  wire : buffer ++ toClient = (gs.map (·.2)).flatten
  replies : ∀ g ∈ gs, Replies p answers g
  waits : Framing.Waits (gs.map (·.2)) buffer

section Downward

variable {answers answers' : List (Invocation ν × μ)} {gs : List (Nat × Bytes)}
  {g : Nat × Bytes} {buffer toClient : Bytes} {client : Session μ} {made : List (Call ν × Nat)}

theorem Replies.responseFrame (h : Replies p answers g) : ResponseFrame p answers g.2 := by
  obtain ⟨a, ha, -, hf, hlen, -⟩ := h
  exact ⟨a, ha, hf, hlen⟩

theorem Replies.mono (ha : answers ⊆ answers') (h : Replies p answers g) :
    Replies p answers' g := by
  obtain ⟨a, hmem, hrest⟩ := h
  exact ⟨a, ha hmem, hrest⟩

/-- The packet of a response names its call. -/
theorem Replies.deserialize (hp : p.Lawful) (h : Replies p answers g) :
    ∃ u, Rpc.deserialize p.data (packetOf g.2) = some u ∧ u.sequenceId = g.1 := by
  obtain ⟨a, -, hid, hf, -, hpacket⟩ := h
  obtain ⟨packet, hpacket⟩ := Option.isSome_iff_exists.mp hpacket
  rw [hf, Protocol.responseFrame, packetOf_packFrame, hpacket, Option.getD_some]
  simp only [Protocol.responsePacket, Option.bind_eq_bind, Option.bind_eq_some_iff] at hpacket
  obtain ⟨m, -, args, -, hpacket⟩ := hpacket
  exact ⟨_, deserialize_serialize hp.data hpacket, hid⟩

/-- The response of a pending request settles it, and the loop goes on. -/
theorem ClientInv.settles (hp : p.Lawful) (h : ClientInv p made answers client)
    (hanswers : ∀ a ∈ answers, ∃ l, MadeOn made l a.1) (hg : Replies p answers g)
    (hpending : (client.channel.pendingRequests.find g.1).isSome = true) :
    (client.onPacket p.order p.data (packetOf g.2)).2 = true ∧
      (client.onPacket p.order p.data (packetOf g.2)).1.channel.pendingRequests =
        client.channel.pendingRequests.erase g.1 ∧
      (client.onPacket p.order p.data (packetOf g.2)).1.channel.connected =
        client.channel.connected := by
  obtain ⟨u, hu, hid⟩ := hg.deserialize hp
  obtain ⟨context, hcontext⟩ := Option.isSome_iff_exists.mp hpending
  have hr : RaftRpcChannel.requestOf p.data client.channel.pendingRequests (packetOf g.2) =
      some (u, context) := by
    simp [RaftRpcChannel.requestOf, hu, hid, hcontext]
  obtain ⟨_, _, m, _, _, hm⟩ := h.requestOf hp hanswers hg.responseFrame hr
  have hhandled : RaftRpcChannel.handlePacket p.data client.channel (packetOf g.2) =
      (RaftRpcChannel.done { client.channel.cancel context.timerId with
        pendingRequests := client.channel.pendingRequests.erase u.sequenceId }
          context.done (.response m), true) := by
    unfold RaftRpcChannel.handlePacket
    rw [hr]
    dsimp only
    rw [hm]
    rfl
  have hchannel : (client.onPacket p.order p.data (packetOf g.2)).1.channel =
      (RaftRpcChannel.handlePacket p.data client.channel (packetOf g.2)).1 := rfl
  have hgoesOn : (client.onPacket p.order p.data (packetOf g.2)).2 =
      (RaftRpcChannel.handlePacket p.data client.channel (packetOf g.2)).2 := rfl
  rw [hchannel, hgoesOn, hhandled, ← hid]
  exact ⟨rfl, rfl, rfl⟩

/-- The responses of different pending requests settle all of them, and no round ends
early. -/
theorem ClientInv.settles_all (hp : p.Lawful) (h : ClientInv p made answers client)
    (hanswers : ∀ a ∈ answers, ∃ l, MadeOn made l a.1)
    (hgs : ∀ g ∈ gs, Replies p answers g) (hnodup : (gs.map (·.1)).Nodup)
    (hpending : ∀ g ∈ gs, (client.channel.pendingRequests.find g.1).isSome = true) :
    let handle := fun s f => Session.onPacket p.order p.data s (packetOf f)
    (∀ pre f post, gs.map (·.2) = pre ++ f :: post →
      (handle (Framing.run handle client pre) f).2 = true) ∧
    (∀ n, (Framing.run handle client (gs.map (·.2))).channel.pendingRequests.find n =
      if n ∈ gs.map (·.1) then none else client.channel.pendingRequests.find n) ∧
    (Framing.run handle client (gs.map (·.2))).channel.connected = client.channel.connected := by
  intro handle
  induction gs generalizing client with
  | nil =>
    refine ⟨?_, fun n => by simp, rfl⟩
    intro pre f post hsplit
    simp at hsplit
  | cons g gs ih =>
    obtain ⟨hgoesOn, herase, hconnected⟩ := h.settles hp hanswers (hgs g List.mem_cons_self)
      (hpending g List.mem_cons_self)
    obtain ⟨hg, hrest⟩ := List.nodup_cons.mp hnodup
    have hkept : ∀ g' ∈ gs, g'.1 ≠ g.1 := by
      intro g' hg' hsame
      exact hg (List.mem_map.mpr ⟨g', hg', hsame⟩)
    obtain ⟨hon, hfind, hup⟩ := ih
      (h.onPacket hp hanswers (hgs g List.mem_cons_self).responseFrame)
      (fun g' hg' => hgs g' (List.mem_cons_of_mem _ hg')) hrest (by
        intro g' hg'
        rw [herase, PendingRequests.find_erase, if_neg (hkept g' hg')]
        exact hpending g' (List.mem_cons_of_mem _ hg'))
    refine ⟨?_, ?_, hup.trans hconnected⟩
    · intro pre f post hsplit
      cases pre with
      | nil =>
        obtain ⟨rfl, -⟩ := List.cons.inj hsplit
        exact hgoesOn
      | cons f' pre =>
        obtain ⟨rfl, htail⟩ := List.cons.inj hsplit
        exact hon pre f post htail
    · intro n
      rw [List.map_cons, Framing.run_cons]
      refine (hfind n).trans ?_
      rw [herase, PendingRequests.find_erase]
      by_cases hn : n = g.1 <;> by_cases hmem : n ∈ gs.map (·.1) <;> simp [hn, hmem]

/-- Responses go from the wire into the closures, and none is left in the buffer. -/
theorem Downward.receive (hp : p.Lawful) (h : Downward p answers gs buffer toClient)
    (hclient : ClientInv p made answers client)
    (hanswers : ∀ a ∈ answers, ∃ l, MadeOn made l a.1) (hnodup : (gs.map (·.1)).Nodup)
    (hpending : ∀ g ∈ gs, (client.channel.pendingRequests.find g.1).isSome = true) (n : Nat) :
    ∃ rs ts client' buffer', Rpc.onMessage p.order (Session.onPacket p.order p.data) client
        (buffer ++ toClient.take n) = some (client', buffer') ∧
      gs = rs ++ ts ∧ Downward p answers ts buffer' (toClient.drop n) ∧
      (∀ n, client'.channel.pendingRequests.find n =
        if n ∈ rs.map (·.1) then none else client.channel.pendingRequests.find n) ∧
      client'.channel.connected = client.channel.connected := by
  have hsplit : buffer ++ toClient.take n ++ toClient.drop n = (gs.map (·.2)).flatten := by
    rw [List.append_assoc, List.take_append_drop, h.wire]
  have hframes : ∀ f ∈ gs.map (·.2), IsFrame p.order f := by
    intro f hf
    obtain ⟨g, hg, rfl⟩ := List.mem_map.mp hf
    exact (h.replies g hg).responseFrame.isFrame
  obtain ⟨fs, fs', buffer', hcut, hbuffer, hread, hend⟩ :=
    (onMessage_reads p.order (Session.onPacket p.order p.data)).read_frames (s := client)
      hframes ⟨_, hsplit⟩
  obtain ⟨rs, ts, rfl, rfl, rfl⟩ := List.map_eq_append_iff.mp hcut
  rw [List.map_append] at hnodup
  obtain ⟨hon, hfind, hup⟩ := hclient.settles_all hp hanswers
    (fun g hg => h.replies g (List.mem_append_left _ hg)) (List.nodup_append.mp hnodup).1
    fun g hg => hpending g (List.mem_append_left _ hg)
  refine ⟨rs, ts, _, buffer', hread, rfl, ?_, hfind, hup⟩
  constructor
  case wire =>
    rw [hbuffer, List.append_assoc, List.map_append, List.flatten_append] at hsplit
    exact List.append_cancel_left hsplit
  case replies => exact fun g hg => h.replies g (List.mem_append_right _ hg)
  case waits =>
    apply hend.resolve_right
    rintro ⟨pre, f, hpre, hstop⟩
    rw [hon pre f [] hpre] at hstop
    cases hstop

/-- One more response. -/
theorem Downward.send (h : Downward p answers gs buffer toClient) (hg : Replies p answers g) :
    Downward p answers (gs ++ [g]) buffer (toClient ++ g.2) := by
  constructor
  case wire =>
    rw [← List.append_assoc, h.wire, List.map_append, List.flatten_append]
    simp
  case replies =>
    intro g' hg'
    rcases List.mem_append.mp hg' with hg' | hg'
    · exact h.replies g' hg'
    · rw [List.mem_singleton.mp hg']
      exact hg
  case waits =>
    rw [List.map_append]
    apply h.waits.append
    intro f hf
    obtain rfl : f = g.2 := by simpa using hf
    exact isFrame_ne_nil hg.responseFrame.isFrame

theorem Downward.mono (ha : answers ⊆ answers') (h : Downward p answers gs buffer toClient) :
    Downward p answers' gs buffer toClient :=
  ⟨h.wire, fun g hg => (h.replies g hg).mono ha, h.waits⟩

end Downward

/-! ## Both ends -/

/-- The ids of the calls on the way back, in hand, and on the way to the dispatcher. -/
def places (gs : List (Nat × Bytes)) (jobs : List (Invocation ν)) (qs : List (Nat × Bytes)) :
    List Nat :=
  gs.map (·.1) ++ (jobs.map (·.sequenceId) ++ qs.map fun q => q.1 + 1)

/-- Every pending request of the channel is in one of the places of its connection. -/
structure Settling (p : Protocol ν μ) (made : List (Call ν × Nat))
    (answers : List (Invocation ν × μ)) (l : Nat) (link : Link ν) (buffer : Bytes)
    (pending : PendingRequests μ) (gs qs : List (Nat × Bytes)) : Prop where
  up : Upward p made l qs link
  down : Downward p answers gs buffer link.toClient
  once : (places gs link.jobs qs).Nodup
  pending : ∀ n, (pending.find n).isSome = true ↔ n ∈ places gs link.jobs qs

section Settling

variable {made : List (Call ν × Nat)} {answers : List (Invocation ν × μ)} {l : Nat}
  {link : Link ν} {buffer : Bytes} {pending : PendingRequests μ} {gs qs : List (Nat × Bytes)}

/-- A connection that has just come up. -/
theorem settling_start (hbuffer : link.buffer = []) (hserver : link.toServer = [])
    (hjobs : link.jobs = []) (hclient : link.toClient = []) :
    Settling p made answers l link [] ([] : PendingRequests μ) [] [] where
  up := ⟨by rw [hbuffer, hserver]; rfl, by simp, by simp, hbuffer⟩
  down := ⟨by rw [hclient]; rfl, by simp, rfl⟩
  once := by simp [places, hjobs]
  pending := by simp [places, hjobs]

theorem Settling.mono {made' : List (Call ν × Nat)} {answers' : List (Invocation ν × μ)}
    (hmade : made <+: made') (hanswers : answers ⊆ answers')
    (h : Settling p made answers l link buffer pending gs qs) :
    Settling p made' answers' l link buffer pending gs qs :=
  ⟨h.up.mono hmade, h.down.mono hanswers, h.once, h.pending⟩

/-- A call whose request is pending is on the way. -/
theorem Settling.request (h : Settling p made answers l link buffer pending gs qs) {k : Nat}
    {f : Bytes} {context : CallMethodContext μ} (hf : RequestFrame p made l k f)
    (hask : (invocationOf p.serviceMap p.data (packetOf f)).isSome = true)
    (hfree : pending.find (k + 1) = none) :
    Settling p made answers l (link.request f) buffer (pending.assign (k + 1) context) gs
      (qs ++ [(k, f)]) := by
  have hplaces : places gs (link.request f).jobs (qs ++ [(k, f)]) =
      places gs link.jobs qs ++ [k + 1] := by
    simp [places, Link.request]
  constructor
  case up => exact h.up.request hf hask
  case down => exact h.down
  case once =>
    rw [hplaces, ← List.concat_eq_append]
    refine List.Nodup.concat ?_ h.once
    intro hmem
    have hsome := (h.pending _).mpr hmem
    rw [hfree] at hsome
    cases hsome
  case pending =>
    intro n
    rw [hplaces, List.mem_append, List.mem_singleton, ← h.pending, PendingRequests.find_assign]
    split
    · next hn => simp [hn]
    · next hn => simp [hn]

/-- Calls come into the hands of the services. -/
theorem Settling.onMessage (hp : p.Lawful)
    (h : Settling p made answers l link buffer pending gs qs) (n : Nat) :
    ∃ ts link', link.onMessage p n = some link' ∧ link'.shut = link.shut ∧
      Settling p made answers l link' buffer pending gs ts := by
  obtain ⟨ts, new, link', hlink, hup, hjobs, hids, hclient, hshut⟩ := h.up.onMessage hp n
  have hplaces : places gs link'.jobs ts = places gs link.jobs qs := by
    rw [places, places, hjobs, hids, List.map_append, List.append_assoc]
  refine ⟨ts, link', hlink, hshut, hup, ?_, ?_, ?_⟩
  · rw [hclient]
    exact h.down
  · rw [hplaces]
    exact h.once
  · rw [hplaces]
    exact h.pending

/-- The response of a call in hand is on the way back. -/
theorem Settling.answer (h : Settling p made answers l link buffer pending gs qs)
    (hunshut : link.shut = false) {job : Nat} {inv : Invocation ν} {m : μ}
    (hinv : link.jobs[job]? = some inv) (hmem : (inv, m) ∈ answers)
    (hlen : (p.responseFrame inv m).length < 2 ^ 32)
    (hpacket : (p.responsePacket inv m).isSome = true) :
    Settling p made answers l
      (({ link with jobs := link.jobs.eraseIdx job } : Link ν).sendResponse p inv m) buffer
      pending (gs ++ [(inv.sequenceId, p.responseFrame inv m)]) qs := by
  have hsend : ({ link with jobs := link.jobs.eraseIdx job } : Link ν).sendResponse p inv m =
      { link with
        jobs := link.jobs.eraseIdx job
        toClient := link.toClient ++ p.responseFrame inv m
        shut := p.shortLived } := by
    simp [Link.sendResponse, hunshut]
  rw [hsend]
  obtain ⟨hjob, rfl⟩ := List.getElem?_eq_some_iff.mp hinv
  have hplaces : (places (gs ++ [(link.jobs[job].sequenceId, p.responseFrame link.jobs[job] m)])
      (link.jobs.eraseIdx job) qs).Perm (places gs link.jobs qs) := by
    have hjobs : (link.jobs[job].sequenceId ::
        (link.jobs.eraseIdx job).map (·.sequenceId)).Perm (link.jobs.map (·.sequenceId)) :=
      (List.getElem_cons_eraseIdx_perm hjob).map fun inv : Invocation ν => inv.sequenceId
    unfold places
    rw [List.map_append, List.append_assoc]
    exact (hjobs.append_right _).append_left _
  constructor
  case up => exact ⟨h.up.wire, h.up.frames, h.up.asks, h.up.waits⟩
  case down => exact h.down.send ⟨(link.jobs[job], m), hmem, rfl, rfl, hlen, hpacket⟩
  case once => exact hplaces.nodup_iff.mpr h.once
  case pending => exact fun n => (h.pending n).trans hplaces.mem_iff.symm

/-- Responses settle pending requests. -/
theorem Settling.receive (hp : p.Lawful) {client : Session μ}
    (h : Settling p made answers l link buffer client.channel.pendingRequests gs qs)
    (hclient : ClientInv p made answers client)
    (hanswers : ∀ a ∈ answers, ∃ l, MadeOn made l a.1) (n : Nat) :
    ∃ ts client' buffer', Rpc.onMessage p.order (Session.onPacket p.order p.data) client
        (buffer ++ link.toClient.take n) = some (client', buffer') ∧
      client'.channel.connected = client.channel.connected ∧
      Settling p made answers l { link with toClient := link.toClient.drop n } buffer'
        client'.channel.pendingRequests ts qs := by
  have hgs : (gs.map (·.1)).Nodup := (List.nodup_append.mp h.once).1
  have hpending : ∀ g ∈ gs, (client.channel.pendingRequests.find g.1).isSome = true := by
    intro g hg
    apply (h.pending g.1).mpr
    exact List.mem_append_left _ (List.mem_map_of_mem hg)
  obtain ⟨rs, ts, client', buffer', hread, rfl, hdown, hfind, hup⟩ :=
    h.down.receive hp hclient hanswers hgs hpending n
  have hplaces : places (rs ++ ts) link.jobs qs = rs.map (·.1) ++ places ts link.jobs qs := by
    rw [places, List.map_append, List.append_assoc]
    rfl
  have honce := h.once
  rw [hplaces] at honce
  obtain ⟨-, hts, hapart⟩ := List.nodup_append.mp honce
  refine ⟨ts, client', buffer', hread, hup, ⟨h.up.wire, h.up.frames, h.up.asks, h.up.waits⟩,
    hdown, hts, ?_⟩
  intro n
  have hold := h.pending n
  rw [hplaces, List.mem_append] at hold
  rw [hfind]
  by_cases hn : n ∈ rs.map (·.1)
  · have hnot : n ∉ places ts link.jobs qs := fun hmem => hapart n hn n hmem rfl
    simp [hn, hnot]
  · rw [if_neg hn, hold]
    simp [hn]

/-- Nothing on the way and nothing in hand: nothing is pending, and both buffers are
empty. -/
theorem Settling.nothing (h : Settling p made answers l link buffer pending gs qs)
    (hserver : link.toServer = []) (hjobs : link.jobs = []) (hclient : link.toClient = []) :
    pending = [] ∧ buffer = [] ∧ link.buffer = [] := by
  have hqs : qs = [] := by
    have hwaits := h.up.waits
    have hwire := h.up.wire
    rw [hserver, List.append_nil] at hwire
    rw [hwire] at hwaits
    exact List.map_eq_nil_iff.mp hwaits.eq_nil
  have hgs : gs = [] := by
    have hwaits := h.down.waits
    have hwire := h.down.wire
    rw [hclient, List.append_nil] at hwire
    rw [hwire] at hwaits
    exact List.map_eq_nil_iff.mp hwaits.eq_nil
  subst hqs
  subst hgs
  refine ⟨?_, h.down.waits, h.up.waits⟩
  cases pending with
  | nil => rfl
  | cons e pending =>
    have hmem := (h.pending e.1).mp (by simp [PendingRequests.find])
    simp [places, hjobs] at hmem

end Settling

/-! ## Steps -/

structure CalmInv (p : Protocol ν μ) (s : Exchange ν μ) : Prop where
  inv : Inv p s
  unshut : ∀ l, (s.links l).shut = false
  closed : s.client.channel.connected = false → s.client.channel.pendingRequests = []
  settling : s.client.channel.connected = true → ∃ gs qs,
    Settling p s.made s.answers s.current (s.links s.current) s.buffer
      s.client.channel.pendingRequests gs qs

theorem calmInv_init : CalmInv p (init : Exchange ν μ) where
  inv := inv_init
  unshut := fun _ => rfl
  closed := fun _ => rfl
  settling := fun h => absurd h Bool.false_ne_true

/-- Nothing is on a connection that has not come up yet. -/
theorem Inv.unopened (h : Inv p s) {l : Nat} (hl : s.current < l) :
    (s.links l).buffer = [] ∧ (s.links l).toServer = [] ∧ (s.links l).jobs = [] := by
  have hnone : ∀ {k : Nat} {c : Call ν}, s.made[k]? ≠ some (c, l) := by
    intro k c hc
    exact absurd (h.numbered _ (List.mem_of_getElem? hc)) (Nat.not_le.mpr hl)
  obtain ⟨qs, hwire, hqs, -⟩ := (h.links l).wire
  have hempty : qs = [] := by
    apply List.eq_nil_iff_forall_not_mem.mpr
    intro q hq
    obtain ⟨c, m, hc, -⟩ := hqs q hq
    exact hnone hc
  rw [hempty] at hwire
  obtain ⟨hbuffer, hserver⟩ := List.append_eq_nil_iff.mp hwire
  refine ⟨hbuffer, hserver, ?_⟩
  apply List.eq_nil_iff_forall_not_mem.mpr
  intro inv hinv
  obtain ⟨k, c, hc, -⟩ := (h.links l).calls inv ((h.links l).jobs.subset hinv)
  exact hnone hc

theorem unshut_setLink {l : Nat} {link : Link ν} (h : ∀ l, (s.links l).shut = false)
    (hlink : link.shut = false) : ∀ l', ((s.setLink l link).links l').shut = false := by
  intro l'
  by_cases hl : l' = l
  · rw [hl, setLink_same]
    exact hlink
  · rw [setLink_other s link hl]
    exact h l'

theorem CalmInv.callMethod (hp : p.Lawful) (h : CalmInv p s) {c : Call ν}
    (hfits : Fits p s (.call c)) (hcalm : Calm p s (.call c)) (hs : s.callMethod p c = some t) :
    CalmInv p t := by
  have hinv := h.inv.callMethod hfits hs
  simp only [Exchange.callMethod, Option.bind_eq_bind, Option.bind_eq_some_iff] at hs
  obtain ⟨m, hm, client, hclient, hs⟩ := hs
  obtain rfl := Option.some.inj hs
  obtain ⟨client', hstep, -, hup, hsent⟩ := h.inv.client.call hm hfits.1 s.current
  rw [hclient] at hstep
  obtain rfl := Option.some.inj hstep
  have hmade := List.prefix_append s.made [(c, s.current)]
  refine ⟨hinv, unshut_setLink h.unshut (h.unshut s.current), ?_, ?_⟩
  · intro hdown
    have hdown' : s.client.channel.connected = false := hup.symm.trans hdown
    rcases hsent with ⟨-, hpending⟩ | ⟨_, _, _, hconnected, _⟩
    · exact hpending.trans (h.closed hdown')
    · rw [hconnected] at hdown'
      cases hdown'
  · intro hconnected
    obtain ⟨gs, qs, hset⟩ := h.settling (hup.symm.trans hconnected)
    show ∃ gs qs, Settling p (s.made ++ [(c, s.current)]) s.answers s.current
      ((s.setLink s.current ((s.links s.current).request
        (client.channel.sent.drop s.client.channel.sent.length).flatten)).links s.current)
      s.buffer client.channel.pendingRequests gs qs
    rw [setLink_same]
    rcases hsent with ⟨hnone, hpending⟩ | ⟨f, context, hf, -, hone, hpending⟩
    · rw [hnone, hpending, List.flatten_nil, Link.request_nil]
      exact ⟨gs, qs, hset.mono hmade (List.Subset.refl _)⟩
    · rw [hone, hpending, List.flatten_singleton]
      refine ⟨gs, _, (hset.mono hmade (List.Subset.refl _)).request
        ⟨c, m, by simp, hm, hf, hfits.2 m hm f hf⟩ ?_ ?_⟩
      · rw [invocationOf_request hp hm hf hcalm]
        rfl
      · have hfree := h.inv.client.next_free
        rwa [h.inv.client.next] at hfree

theorem CalmInv.serverReceives (hp : p.Lawful) (h : CalmInv p s) {l n : Nat}
    (hs : s.step p (.serverReceives l n) = some t) : CalmInv p t := by
  have hinv := h.inv.step hp (e := .serverReceives l n) trivial hs
  simp only [Exchange.step, Option.bind_eq_bind, Option.bind_eq_some_iff] at hs
  obtain ⟨link, hlink, hs⟩ := hs
  obtain rfl := Option.some.inj hs
  have hshut : link.shut = false := by
    simp only [Link.onMessage, Option.bind_eq_bind, Option.bind_eq_some_iff] at hlink
    obtain ⟨r, -, hr⟩ := hlink
    rw [← Option.some.inj hr]
    exact h.unshut l
  refine ⟨hinv, unshut_setLink h.unshut hshut, h.closed, ?_⟩
  intro hconnected
  obtain ⟨gs, qs, hset⟩ := h.settling hconnected
  show ∃ gs qs, Settling p s.made s.answers s.current ((s.setLink l link).links s.current)
    s.buffer s.client.channel.pendingRequests gs qs
  by_cases hl : s.current = l
  · subst hl
    obtain ⟨ts, link', hlink', -, hset'⟩ := hset.onMessage hp n
    rw [hlink] at hlink'
    obtain rfl := Option.some.inj hlink'
    rw [setLink_same]
    exact ⟨gs, ts, hset'⟩
  · rw [setLink_other s link hl]
    exact ⟨gs, qs, hset⟩

theorem CalmInv.answer (hlong : p.shortLived = false) (h : CalmInv p s) {l job : Nat}
    {response : Option μ} (hfits : Fits p s (.answer l job response))
    (hcalm : Calm p s (.answer l job response)) (hs : s.answer p l job response = some t) :
    CalmInv p t := by
  have hinv := h.inv.answer hfits hs
  obtain ⟨m, hm, hpacket⟩ := hcalm
  obtain rfl : response = some m := hm
  simp only [Exchange.answer, Option.bind_eq_bind, Option.bind_eq_some_iff] at hs
  obtain ⟨inv, hjob, hs⟩ := hs
  obtain rfl := Option.some.inj hs
  have hshut : (({ s.links l with jobs := (s.links l).jobs.eraseIdx job } :
      Link ν).sendResponse p inv m).shut = false := by
    simp [Link.sendResponse, h.unshut l, hlong]
  refine ⟨hinv, unshut_setLink h.unshut hshut, h.closed, ?_⟩
  intro hconnected
  obtain ⟨gs, qs, hset⟩ := h.settling hconnected
  have hmore := hset.mono (List.prefix_refl _) (List.subset_append_left _ [(inv, m)])
  show ∃ gs qs, Settling p s.made (s.answers ++ [(inv, m)]) s.current
    ((s.setLink l _).links s.current) s.buffer s.client.channel.pendingRequests gs qs
  by_cases hl : s.current = l
  · subst hl
    rw [setLink_same]
    exact ⟨_, qs, hmore.answer (h.unshut _) hjob (by simp) (hfits inv hjob) (hpacket inv hjob)⟩
  · rw [setLink_other s _ hl]
    exact ⟨gs, qs, hmore⟩

theorem CalmInv.clientReceives (hp : p.Lawful) (h : CalmInv p s) {n : Nat}
    (hs : s.step p (.clientReceives n) = some t) : CalmInv p t := by
  have hinv := h.inv.step hp (e := .clientReceives n) trivial hs
  simp only [Exchange.step] at hs
  split at hs
  case isFalse => cases hs
  case isTrue hconnected =>
    obtain ⟨gs, qs, hset⟩ := h.settling hconnected
    obtain ⟨ts, client, buffer, hread, hup, hset'⟩ :=
      hset.receive hp h.inv.client h.inv.madeOn n
    rw [Exchange.clientReceives, hread] at hs
    obtain rfl := Option.some.inj hs
    refine ⟨hinv, unshut_setLink h.unshut (h.unshut s.current), ?_, ?_⟩
    · intro hdown
      have hdown' : client.channel.connected = false := hdown
      rw [hup, hconnected] at hdown'
      cases hdown'
    · intro _
      show ∃ gs qs, Settling p s.made s.answers s.current
        ((s.setLink s.current _).links s.current) buffer client.channel.pendingRequests gs qs
      rw [setLink_same]
      exact ⟨ts, qs, hset'⟩

theorem CalmInv.connection (h : CalmInv p s) {connected : Bool}
    (hflip : s.client.channel.connected ≠ connected) (hs : s.connection p connected = some t) :
    CalmInv p t := by
  have hinv := h.inv.connection hs
  obtain ⟨client, hclient, -, hup⟩ := h.inv.client.connection connected
  have hchannel : client.channel = s.client.channel.onConnection connected := by
    rw [← Option.some.inj hclient]
  simp only [Exchange.connection, Option.bind_eq_bind, hclient, Option.bind_some] at hs
  cases connected with
  | false =>
    obtain rfl := Option.some.inj hs
    refine ⟨hinv, h.unshut, ?_, ?_⟩
    · intro _
      show client.channel.pendingRequests = []
      rw [hchannel, RaftRpcChannel.onConnection_closed]
    · intro hconnected
      have hconnected' : client.channel.connected = true := hconnected
      rw [hup] at hconnected'
      cases hconnected'
  | true =>
    obtain rfl := Option.some.inj hs
    refine ⟨hinv, h.unshut, ?_, ?_⟩
    · intro hdown
      have hdown' : client.channel.connected = false := hdown
      rw [hup] at hdown'
      cases hdown'
    · intro _
      have hnext : s.current < s.current + 1 := Nat.lt_succ_self _
      obtain ⟨hbuffer, hserver, hjobs⟩ := h.inv.unopened hnext
      have hpending : client.channel.pendingRequests = [] := by
        rw [hchannel]
        exact h.closed (Bool.eq_false_iff.mpr hflip)
      show ∃ gs qs, Settling p s.made s.answers (s.current + 1) (s.links (s.current + 1)) []
        client.channel.pendingRequests gs qs
      rw [hpending]
      exact ⟨[], [], settling_start hbuffer hserver hjobs (h.inv.unused _ hnext)⟩

theorem CalmInv.step (hp : p.Lawful) (hlong : p.shortLived = false) (h : CalmInv p s)
    {e : ExchangeEvent ν μ} (hfits : Fits p s e) (hcalm : Calm p s e)
    (hs : s.step p e = some t) : CalmInv p t := by
  cases e with
  | call c => exact h.callMethod hp hfits hcalm hs
  | serverReceives l n => exact h.serverReceives hp hs
  | answer l job response => exact h.answer hlong hfits hcalm hs
  | clientReceives n => exact h.clientReceives hp hs
  | timeout timerId => exact absurd hcalm (fun h => h)
  | connection connected =>
    simp only [Exchange.step] at hs
    split at hs
    · cases hs
    · next hflip => exact h.connection hflip hs

/-! ## Every run -/

/-- A call made on a quiet connection is never left without its response: when no byte is
on the way and no call is in hand, all calls have completed and the buffers are empty. -/
theorem run_settles (p : Protocol ν μ) (hp : p.Lawful) (hlong : p.shortLived = false)
    (es : List (ExchangeEvent ν μ)) (s : Exchange ν μ)
    (hr : Transition.Run (step p) (fun s e => Fits p s e ∧ Calm p s e) init es s)
    (hserver : (s.links s.current).toServer = []) (hjobs : (s.links s.current).jobs = [])
    (hclient : (s.links s.current).toClient = []) :
    (∀ k, s.client.channel.closures.count k = if k < s.made.length then 1 else 0) ∧
      s.client.channel.pendingRequests = [] ∧
      (s.client.channel.connected = true → s.buffer = [] ∧ (s.links s.current).buffer = []) := by
  have h : CalmInv p s := by
    apply hr.invariant _ calmInv_init
    intro s e t hs hok hst
    exact hs.step hp hlong hok.1 hok.2 hst
  have hpending : s.client.channel.pendingRequests = [] ∧
      (s.client.channel.connected = true → s.buffer = [] ∧ (s.links s.current).buffer = []) := by
    cases hconnected : s.client.channel.connected with
    | false => exact ⟨h.closed hconnected, fun hup => absurd hup Bool.false_ne_true⟩
    | true =>
      obtain ⟨gs, qs, hset⟩ := h.settling hconnected
      obtain ⟨hnone, hbuffer, hlink⟩ := hset.nothing hserver hjobs hclient
      exact ⟨hnone, fun _ => ⟨hbuffer, hlink⟩⟩
  refine ⟨?_, hpending⟩
  have hclientInv := h.inv.client
  intro k
  split
  case isTrue hk =>
    have hmem : (k, k + 1) ∈ s.client.issued := by
      rw [hclientInv.issued]
      exact List.mem_map.mpr ⟨k, List.mem_range.mpr hk, rfl⟩
    rcases hclientInv.sound.settled _ hmem with hrun | ⟨c, hc, -⟩
    · exact List.count_eq_one_of_mem hclientInv.sound.once hrun
    · rw [hpending.1] at hc
      cases hc
  case isFalse hk =>
    apply List.count_eq_zero_of_not_mem
    intro hmem
    have hlt := hclientInv.sound.ran k hmem
    rw [hclientInv.calls] at hlt
    exact hk hlt

/-- The second response is in the same chunk as the end of the first. -/
theorem run_settles_twoCalls : ∃ s : Exchange Unit Unit,
    (∀ k, s.client.channel.closures.count k = if k < s.made.length then 1 else 0) ∧
      s.made.length = 2 ∧ s.client.channel.runs = [(1, .response ()), (0, .response ())] := by
  have hexec : (Transition.exec (step voteProtocol)
      (fun s e => Fits voteProtocol s e ∧ Calm voteProtocol s e) init
      [.connection true, .call voteStub, .call voteStub, .serverReceives 1 20,
        .serverReceives 1 100, .answer 1 1 (some ()), .answer 1 0 (some ()), .clientReceives 40,
        .clientReceives 100]).map
      (fun s => decide ((s.links s.current).toServer = [] ∧ (s.links s.current).jobs = [] ∧
        (s.links s.current).toClient = [] ∧ s.made.length = 2 ∧
        s.client.channel.runs = [(1, .response ()), (0, .response ())])) = some true := by
    decide +kernel
  obtain ⟨s, hr, hp⟩ := Transition.Run.exists_of_exec hexec
  obtain ⟨hserver, hjobs, hclient, hmade, hruns⟩ := of_decide_eq_true hp
  exact ⟨s, (run_settles voteProtocol voteProtocol_lawful rfl _ s hr hserver hjobs hclient).1,
    hmade, hruns⟩

end Exchange

end Rpc

end WWRaftKV
