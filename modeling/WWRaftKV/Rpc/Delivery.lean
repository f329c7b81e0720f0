/-
Whole runs of an exchange: what a closure of the channel is run with has been answered to
its own call, and no call reaches a service twice.

No order of the bytes, the answers, the timers and the connections is assumed.
-/
import WWRaftKV.Rpc.Ends

namespace WWRaftKV

namespace Rpc

namespace Exchange

variable {ν μ : Type} {p : Protocol ν μ} {s t : Exchange ν μ}

structure Inv (p : Protocol ν μ) (s : Exchange ν μ) : Prop where
  client : ClientInv p s.made s.answers s.client
  links : ∀ l, LinkInv p s.made l (s.links l)
  numbered : ∀ e ∈ s.made, e.2 ≤ s.current
  unused : ∀ l, s.current < l → (s.links l).toClient = []
  back : ∃ fs : List Bytes, s.buffer ++ (s.links s.current).toClient = fs.flatten ∧
    ∀ f ∈ fs, ResponseFrame p s.answers f
  answered : ∀ a ∈ s.answers, ∃ l, a.1 ∈ (s.links l).calls
  once : (s.answers.map fun a => a.1.sequenceId).Nodup
  inHand : ∀ l, ∀ j ∈ (s.links l).jobs, ∀ a ∈ s.answers, a.1.sequenceId ≠ j.sequenceId

theorem inv_init : Inv p (init : Exchange ν μ) where
  client := clientInv_init
  links := fun _ => linkInv_init
  numbered := by simp [init]
  unused := fun _ _ => rfl
  back := ⟨[], rfl, by simp⟩
  answered := by simp [init]
  once := List.nodup_nil
  inHand := by simp [init, Link.init]

@[simp] theorem setLink_same (s : Exchange ν μ) (l : Nat) (link : Link ν) :
    (s.setLink l link).links l = link := Function.update_self ..

theorem setLink_other (s : Exchange ν μ) {l l' : Nat} (link : Link ν) (h : l' ≠ l) :
    (s.setLink l link).links l' = s.links l' := Function.update_of_ne h ..

theorem Inv.madeOn (h : Inv p s) : ∀ a ∈ s.answers, ∃ l, MadeOn s.made l a.1 := by
  intro a ha
  obtain ⟨l, hl⟩ := h.answered a ha
  exact ⟨l, (h.links l).calls _ hl⟩

/-! ## Steps -/

/-- One link changes, and with it the channel and its buffer may. -/
theorem Inv.relink (h : Inv p s) {client : Session μ} {buffer : Bytes} {l : Nat} {link : Link ν}
    (hclient : ClientInv p s.made s.answers client) (hlink : LinkInv p s.made l link)
    (hunused : s.current < l → link.toClient = [])
    (hback : l = s.current → ∃ fs : List Bytes, buffer ++ link.toClient = fs.flatten ∧
      ∀ f ∈ fs, ResponseFrame p s.answers f)
    (hbuffer : l ≠ s.current → buffer = s.buffer)
    (hcalls : ∀ inv ∈ (s.links l).calls, inv ∈ link.calls)
    (hjobs : ∀ j ∈ link.jobs, ∀ a ∈ s.answers, a.1.sequenceId ≠ j.sequenceId) :
    Inv p { s.setLink l link with client := client, buffer := buffer } := by
  have hall : ∀ {P : Nat → Link ν → Prop}, P l link → (∀ l', P l' (s.links l')) →
      ∀ l', P l' ((s.setLink l link).links l') := by
    intro P hone hothers l'
    by_cases hl : l' = l
    · rw [hl, setLink_same]
      exact hone
    · rw [setLink_other s link hl]
      exact hothers l'
  constructor
  case client => exact hclient
  case links => exact hall (P := LinkInv p s.made) hlink h.links
  case numbered => exact h.numbered
  case unused =>
    exact hall (P := fun l link => s.current < l → link.toClient = []) hunused h.unused
  case back =>
    show ∃ fs : List Bytes, buffer ++ ((s.setLink l link).links s.current).toClient =
      fs.flatten ∧ ∀ f ∈ fs, ResponseFrame p s.answers f
    by_cases hl : l = s.current
    · rw [← hl, setLink_same]
      exact hback hl
    · rw [setLink_other s link (Ne.symm hl), hbuffer hl]
      exact h.back
  case answered =>
    intro a ha
    obtain ⟨l', hl'⟩ := h.answered a ha
    refine ⟨l', ?_⟩
    exact hall (P := fun l' link => a.1 ∈ (s.links l').calls → a.1 ∈ link.calls) (hcalls a.1)
      (fun _ hmem => hmem) l' hl'
  case once => exact h.once
  case inHand =>
    exact hall (P := fun _ link => ∀ j ∈ link.jobs, ∀ a ∈ s.answers,
      a.1.sequenceId ≠ j.sequenceId) hjobs h.inHand

/-- A call is counted. -/
theorem Inv.called (h : Inv p s) {c : Call ν} {client : Session μ}
    (hclient : ClientInv p (s.made ++ [(c, s.current)]) s.answers client) :
    Inv p { s with client := client, made := s.made ++ [(c, s.current)] } where
  client := hclient
  links := fun l => (h.links l).mono (List.prefix_append ..)
  numbered := by
    intro e he
    rcases List.mem_append.mp he with he | he
    · exact h.numbered e he
    · rw [List.mem_singleton.mp he]
  unused := h.unused
  back := h.back
  answered := h.answered
  once := h.once
  inHand := h.inHand

theorem Inv.callMethod (h : Inv p s) {c : Call ν} (hfits : Fits p s (.call c))
    (hs : s.callMethod p c = some t) : Inv p t := by
  obtain ⟨hids, hshort⟩ := hfits
  simp only [Exchange.callMethod, Option.bind_eq_bind, Option.bind_eq_some_iff] at hs
  obtain ⟨m, hm, client, hclient, hs⟩ := hs
  obtain rfl := Option.some.inj hs
  obtain ⟨client', hstep, hinv, -, hsent⟩ := h.client.call hm hids s.current
  rw [hclient] at hstep
  obtain rfl := Option.some.inj hstep
  have hcalled := h.called hinv
  have hlink := hcalled.links s.current
  apply hcalled.relink hinv
  case hlink =>
    rcases hsent with ⟨hnone, -⟩ | ⟨f, _, hf, -, hone, -⟩
    · rw [hnone, List.flatten_nil, Link.request_nil]
      exact hlink
    · rw [hone, List.flatten_singleton]
      exact (h.links s.current).request ⟨c, m, by simp, hm, hf, hshort m hm f hf⟩
  case hunused => exact fun hlt => absurd hlt (Nat.lt_irrefl _)
  case hback => exact fun _ => h.back
  case hbuffer => exact fun hne => absurd rfl hne
  case hcalls => exact fun inv hinv => hinv
  case hjobs => exact h.inHand s.current

/-- The receive loop of a dispatcher never fails its assertion. -/
theorem Inv.serverReceives (hp : p.Lawful) (h : Inv p s) (l n : Nat) :
    ∃ t, s.step p (.serverReceives l n) = some t ∧ Inv p t := by
  obtain ⟨link, hlink, hinv, hclient, new, hjobs, hcalls⟩ := (h.links l).onMessage hp n
  refine ⟨s.setLink l link, by simp [step, hlink], ?_⟩
  apply h.relink h.client hinv
  case hunused =>
    rw [hclient]
    exact h.unused l
  case hback =>
    rintro rfl
    rw [hclient]
    exact h.back
  case hbuffer => exact fun _ => rfl
  case hcalls =>
    intro inv hmem
    rw [hcalls]
    exact List.mem_append_left _ hmem
  case hjobs =>
    -- the new calls have larger ids than the answered ones of this connection
    intro j hj a ha hsame
    rw [hjobs] at hj
    rcases List.mem_append.mp hj with hold | hnew
    · exact h.inHand l j hold a ha hsame
    · obtain ⟨l', hl'⟩ := h.answered a ha
      have hmade := (h.links l').calls _ hl'
      have hcall : j ∈ link.calls := by
        rw [hcalls]
        exact List.mem_append_right _ hnew
      obtain ⟨rfl, -⟩ := hmade.unique (hinv.calls j hcall) hsame
      have hasc := hinv.ascending
      rw [hcalls, List.map_append] at hasc
      have hlt := (List.pairwise_append.mp hasc).2.2 _ (List.mem_map_of_mem hl') _
        (List.mem_map_of_mem hnew)
      omega

theorem Inv.clientReceives (hp : p.Lawful) (h : Inv p s) (n : Nat) :
    ∃ t, s.clientReceives p n = some t ∧ Inv p t := by
  obtain ⟨fs, hfs, hall⟩ := h.back
  have hsplit : s.buffer ++ (s.links s.current).toClient.take n ++
      (s.links s.current).toClient.drop n = fs.flatten := by
    rw [List.append_assoc, List.take_append_drop, hfs]
  obtain ⟨gs, fs', buffer, rfl, hbuffer, hread, -⟩ :=
    (onMessage_reads p.order (Session.onPacket p.order p.data)).read_frames (s := s.client)
      (fun f hf => (hall f hf).isFrame) ⟨_, hsplit⟩
  refine ⟨_, by rw [Exchange.clientReceives, hread]; rfl, ?_⟩
  apply h.relink
  case hclient => exact h.client.run hp h.madeOn fun f hf => hall f (List.mem_append_left _ hf)
  case hlink => exact ⟨(h.links s.current).wire, (h.links s.current).calls,
    (h.links s.current).jobs⟩
  case hunused => exact fun hlt => absurd hlt (Nat.lt_irrefl _)
  case hback =>
    intro _
    refine ⟨fs', ?_, fun f hf => hall f (List.mem_append_right _ hf)⟩
    rw [hbuffer, List.append_assoc, List.flatten_append] at hsplit
    exact List.append_cancel_left hsplit
  case hbuffer => exact fun hne => absurd rfl hne
  case hcalls => exact fun inv hinv => hinv
  case hjobs => exact h.inHand s.current

/-- A call in hand is answered. -/
theorem Inv.answered_more (h : Inv p s) {l : Nat} {inv : Invocation ν} (m : μ)
    (hinv : inv ∈ (s.links l).calls)
    (hnew : ∀ a ∈ s.answers, a.1.sequenceId ≠ inv.sequenceId)
    (hjobs : ∀ l', ∀ j ∈ (s.links l').jobs, inv.sequenceId ≠ j.sequenceId) :
    Inv p { s with answers := s.answers ++ [(inv, m)] } where
  client := h.client.mono (List.subset_append_left ..)
  links := h.links
  numbered := h.numbered
  unused := h.unused
  back := by
    obtain ⟨fs, hfs, hall⟩ := h.back
    exact ⟨fs, hfs, fun f hf => (hall f hf).mono (List.subset_append_left ..)⟩
  answered := by
    intro a ha
    rcases List.mem_append.mp ha with ha | ha
    · exact h.answered a ha
    · rw [List.mem_singleton.mp ha]
      exact ⟨l, hinv⟩
  once := by
    rw [List.map_append, List.map_singleton, ← List.concat_eq_append]
    refine List.Nodup.concat ?_ h.once
    intro hmem
    obtain ⟨a, ha, hid⟩ := List.mem_map.mp hmem
    exact hnew a ha hid
  inHand := by
    intro l' j hj a ha
    rcases List.mem_append.mp ha with ha | ha
    · exact h.inHand l' j hj a ha
    · rw [List.mem_singleton.mp ha]
      exact hjobs l' j hj

/-- The ids of the calls in hand differ. -/
theorem LinkInv.jobs_nodup {made : List (Call ν × Nat)} {l : Nat} {link : Link ν}
    (h : LinkInv p made l link) : (link.jobs.map (·.sequenceId)).Nodup := by
  have hnodup : (link.calls.map (·.sequenceId)).Nodup := h.ascending.imp Nat.ne_of_lt
  exact hnodup.sublist (h.jobs.map _)

/-- The call that has been answered is not in hand any more. -/
theorem LinkInv.not_mem_eraseIdx {made : List (Call ν × Nat)} {l job : Nat} {link : Link ν}
    {inv : Invocation ν} (h : LinkInv p made l link) (hinv : link.jobs[job]? = some inv) :
    inv ∉ link.jobs.eraseIdx job := by
  intro hmem
  obtain ⟨i, hi, hne, hsame⟩ := List.mem_eraseIdx_iff_getElem.mp hmem
  obtain ⟨hjob, rfl⟩ := List.getElem?_eq_some_iff.mp hinv
  exact hne ((List.Nodup.getElem_inj_iff (List.Nodup.of_map _ h.jobs_nodup)).mp hsame)

/-- The response of a call that has been made is sent. -/
theorem Inv.send (h : Inv p s) {l : Nat} {inv : Invocation ν} {m : μ}
    (hcall : inv ∈ (s.links l).calls)
    (hframe : ResponseFrame p s.answers (p.responseFrame inv m)) :
    Inv p (s.setLink l ((s.links l).sendResponse p inv m)) := by
  apply h.relink h.client ((h.links l).sendResponse inv m)
  case hunused =>
    intro hlt
    -- no call was made on this connection yet
    obtain ⟨k, c, hc, -⟩ := (h.links l).calls inv hcall
    have hle := h.numbered _ (List.mem_of_getElem? hc)
    exact absurd hlt (Nat.not_lt.mpr hle)
  case hback =>
    rintro rfl
    obtain ⟨fs, hfs, hall⟩ := h.back
    rw [Link.sendResponse_toClient, ← List.append_assoc]
    split
    · rw [List.append_nil]
      exact ⟨fs, hfs, hall⟩
    · refine ⟨fs ++ [p.responseFrame inv m], ?_, ?_⟩
      · rw [List.flatten_append, List.flatten_singleton, ← hfs]
      · intro f hf
        rcases List.mem_append.mp hf with hf | hf
        · exact hall f hf
        · rw [List.mem_singleton.mp hf]
          exact hframe
  case hbuffer => exact fun _ => rfl
  case hcalls =>
    rw [Link.sendResponse_calls]
    exact fun inv hinv => hinv
  case hjobs =>
    rw [Link.sendResponse_jobs]
    exact h.inHand l

theorem Inv.answer (h : Inv p s) {l job : Nat} {response : Option μ}
    (hfits : Fits p s (.answer l job response)) (hs : s.answer p l job response = some t) :
    Inv p t := by
  simp only [Exchange.answer, Option.bind_eq_bind, Option.bind_eq_some_iff] at hs
  obtain ⟨inv, hinv, hs⟩ := hs
  have hjob : inv ∈ (s.links l).jobs := List.mem_of_getElem? hinv
  have hcall : inv ∈ (s.links l).calls := (h.links l).jobs.subset hjob
  set link : Link ν := { s.links l with jobs := (s.links l).jobs.eraseIdx job }
  -- the call is no longer in hand
  have hdone : Inv p (s.setLink l link) := by
    apply h.relink h.client ((h.links l).finish job _ _) (h.unused l)
    case hback =>
      rintro rfl
      exact h.back
    case hbuffer => exact fun _ => rfl
    case hcalls => exact fun inv hinv => hinv
    case hjobs => exact fun j hj => h.inHand l j (List.mem_of_mem_eraseIdx hj)
  cases response with
  | none =>
    obtain rfl := Option.some.inj hs
    exact hdone
  | some m =>
    obtain rfl := Option.some.inj hs
    have hfresh : ∀ l', ∀ j ∈ ((s.setLink l link).links l').jobs,
        inv.sequenceId ≠ j.sequenceId := by
      intro l' j hj hsame
      have hmade := (h.links l).calls inv hcall
      have hmade' := (hdone.links l').calls j ((hdone.links l').jobs.subset hj)
      obtain ⟨rfl, rfl⟩ := hmade.unique hmade' hsame
      rw [setLink_same] at hj
      exact (h.links l).not_mem_eraseIdx hinv hj
    have hmore := hdone.answered_more (l := l) m (by rw [setLink_same]; exact hcall)
      (h.inHand l inv hjob) hfresh
    have hframe : ResponseFrame p (s.answers ++ [(inv, m)]) (p.responseFrame inv m) :=
      ⟨(inv, m), by simp, rfl, hfits inv hinv⟩
    have hsent := hmore.send (l := l) (by simpa using hcall) hframe
    have hset : ({ s.setLink l link with answers := s.answers ++ [(inv, m)] } :
        Exchange ν μ).setLink l (link.sendResponse p inv m) =
        { s.setLink l (link.sendResponse p inv m) with answers := s.answers ++ [(inv, m)] } := by
      simp [setLink]
    rw [setLink_same] at hsent
    rwa [← hset]

/-- A connection that comes up has nothing on the way back. -/
theorem Inv.connection (h : Inv p s) {connected : Bool}
    (hs : s.connection p connected = some t) : Inv p t := by
  obtain ⟨client, hclient, hinv, -⟩ := h.client.connection connected
  simp only [Exchange.connection, Option.bind_eq_bind, hclient, Option.bind_some] at hs
  cases connected with
  | false =>
    obtain rfl := Option.some.inj hs
    exact ⟨hinv, h.links, h.numbered, h.unused, h.back, h.answered, h.once, h.inHand⟩
  | true =>
    obtain rfl := Option.some.inj hs
    constructor
    case client => exact hinv
    case links => exact h.links
    case numbered => exact fun e he => Nat.le_succ_of_le (h.numbered e he)
    case unused => exact fun l hl => h.unused l (Nat.lt_of_succ_lt hl)
    case back => exact ⟨[], h.unused _ (Nat.lt_succ_self _), by simp⟩
    case answered => exact h.answered
    case once => exact h.once
    case inHand => exact h.inHand

theorem Inv.timeout (h : Inv p s) {timerId : Nat} {client : Session μ}
    (hs : s.client.step p.order p.data (.timeout timerId) = some client) :
    Inv p { s with client := client } :=
  ⟨h.client.timeout hs, h.links, h.numbered, h.unused, h.back, h.answered, h.once, h.inHand⟩

theorem Inv.step (hp : p.Lawful) (h : Inv p s) {e : ExchangeEvent ν μ} (hfits : Fits p s e)
    (hs : s.step p e = some t) : Inv p t := by
  cases e with
  | call c => exact h.callMethod hfits hs
  | serverReceives l n =>
    obtain ⟨t', ht', hinv⟩ := h.serverReceives hp l n
    rw [hs] at ht'
    obtain rfl := Option.some.inj ht'
    exact hinv
  | answer l job response => exact h.answer hfits hs
  | clientReceives n =>
    obtain ⟨t', ht', hinv⟩ := h.clientReceives hp n
    simp only [Exchange.step] at hs
    split at hs
    · rw [hs] at ht'
      obtain rfl := Option.some.inj ht'
      exact hinv
    · cases hs
  | timeout timerId =>
    simp only [Exchange.step, Option.bind_eq_bind, Option.bind_eq_some_iff] at hs
    obtain ⟨client, hclient, hs⟩ := hs
    obtain rfl := Option.some.inj hs
    exact h.timeout hclient
  | connection connected =>
    simp only [Exchange.step] at hs
    split at hs
    · cases hs
    · exact h.connection hs

/-! ## Every run -/

/-- Every call completes.  What a closure has been run with was answered to its call, each
call was answered at most once, and the services were called with the calls made on the
connection, in their order and each at most once.  No receive loop fails its assertion. -/
structure Faithful (p : Protocol ν μ) (s : Exchange ν μ) : Prop where
  completes : s.client.Completes
  responses : ∀ k m, (k, .response m) ∈ s.client.channel.runs →
    ∃ (c : Call ν) (l : Nat), s.made[k]? = some (c, l) ∧ (c.under (k + 1), m) ∈ s.answers
  answers : ∀ a ∈ s.answers, ∃ l, a.1 ∈ (s.links l).calls
  answeredOnce : (s.answers.map fun a => a.1.sequenceId).Nodup
  calls : ∀ l, ∀ inv ∈ (s.links l).calls, MadeOn s.made l inv
  ordered : ∀ l, List.Pairwise (· < ·) ((s.links l).calls.map (·.sequenceId))
  serverGoesOn : ∀ l n, s.step p (.serverReceives l n) ≠ none
  clientGoesOn : ∀ n, s.client.channel.connected = true → s.step p (.clientReceives n) ≠ none

theorem Inv.faithful (hp : p.Lawful) (h : Inv p s) : Faithful p s where
  completes := h.client.sound.exactlyOnce
  responses := h.client.runs
  answers := h.answered
  answeredOnce := h.once
  calls := fun l => (h.links l).calls
  ordered := fun l => (h.links l).ascending
  serverGoesOn := by
    intro l n
    obtain ⟨t, ht, -⟩ := h.serverReceives hp l n
    rw [ht]
    exact Option.some_ne_none _
  clientGoesOn := by
    intro n hconnected
    obtain ⟨t, ht, -⟩ := h.clientReceives hp n
    rw [Exchange.step, if_pos hconnected, ht]
    exact Option.some_ne_none _

/-- However the bytes are cut, the answers are ordered and the connection comes and goes. -/
theorem run_faithful (p : Protocol ν μ) (hp : p.Lawful) (es : List (ExchangeEvent ν μ))
    (s : Exchange ν μ) (hr : Transition.Run (step p) (Fits p) init es s) : Faithful p s := by
  apply Inv.faithful hp
  apply hr.invariant _ inv_init
  intro s e t hs hfits hst
  exact hs.step hp hfits hst

end Exchange

/-! ## Two calls -/

/-- `RequestVote` with default values in the request and in the response. -/
def voteProtocol : Protocol Unit Unit where
  order := .little
  data := Codec.ofRows
    [({ serviceName := [], methodName := [], sequenceId := 0, payloadSize := 0,
        payloadChecksum := 0, payload := [] }, []),
      (voteData 1, votePacket 1), (voteData 2, votePacket 2)]
  methods := fun service method =>
    if service = (voteData 0).serviceName ∧ method = (voteData 0).methodName then
      some { request := Codec.ofRows [((), [])], response := Codec.ofRows [((), [])] }
    else none
  registered := fun service => service = (voteData 0).serviceName
  shortLived := false

theorem voteProtocol_lawful : voteProtocol.Lawful where
  data := Codec.ofRows_inverts (by decide)
  blank := by
    intro d hd
    obtain rfl := Option.some.inj hd
    rfl
  methods := by
    intro service method m hm
    simp only [voteProtocol] at hm
    split at hm
    · obtain rfl := Option.some.inj hm
      exact ⟨Codec.ofRows_inverts (by decide), Codec.ofRows_inverts (by decide)⟩
    · cases hm

def voteStub : Call Unit where
  serviceName := (voteData 0).serviceName
  methodName := (voteData 0).methodName
  request := ()

namespace Exchange

/-- Two calls reach the service in pieces and are answered in the other order.  The
connection closes before the second answer is there. -/
theorem run_faithful_twoCalls : ∃ s, Transition.Run (step voteProtocol) (Fits voteProtocol) init
    [.connection true, .call voteStub, .call voteStub, .serverReceives 1 20,
      .serverReceives 1 100, .answer 1 1 (some ()), .answer 1 0 (some ()), .clientReceives 40,
      .clientReceives 30, .connection false] s ∧
    Faithful voteProtocol s ∧
    s.client.channel.runs = [(1, .response ()), (0, .failed "connection already closed")] := by
  have hexec : (Transition.exec (step voteProtocol) (Fits voteProtocol) init
      [.connection true, .call voteStub, .call voteStub, .serverReceives 1 20,
        .serverReceives 1 100, .answer 1 1 (some ()), .answer 1 0 (some ()), .clientReceives 40,
        .clientReceives 30, .connection false]).map
      (fun s => decide (s.client.channel.runs =
        [(1, .response ()), (0, .failed "connection already closed")])) = some true := by
    decide +kernel
  obtain ⟨s, hr, hp⟩ := Transition.Run.exists_of_exec hexec
  exact ⟨s, hr, run_faithful voteProtocol voteProtocol_lawful _ s hr, of_decide_eq_true hp⟩

end Exchange

end Rpc

end WWRaftKV
