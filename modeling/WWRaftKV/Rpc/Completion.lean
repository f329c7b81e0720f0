/-
The life of a call on a channel: every event that can follow, and when its closure is due.

A closure is due once a response with the id of its call has been processed, its timer has
fired, or the connection has closed.  What is due is read off the events, and not off the
pending table.
-/
import WWRaftKV.Rpc.Channel

namespace WWRaftKV

namespace Rpc

inductive ChannelEvent (μ : Type)
  /-- a call of a method -/
  | call (c : MethodCall μ)
  /-- a packet has come out of the receive loop -/
  | response (packet : Bytes)
  /-- a timer fires that has not been cancelled -/
  | timeout (timerId : Nat)
  /-- the connection is up, or down -/
  | connection (connected : Bool)

/-- A channel, the calls made on it with their sequence ids, and the closures that are
due. -/
structure Session (μ : Type) where
  channel : RaftRpcChannel μ
  issued : List (Nat × Nat)
  due : List Nat

namespace RaftRpcChannel

variable {μ : Type}

/-- The closures that have been run. -/
def closures (ch : RaftRpcChannel μ) : List Nat := ch.runs.map (·.1)

@[simp] theorem closures_done (ch : RaftRpcChannel μ) (k : Nat) (o : Outcome μ) :
    (ch.done k o).closures = ch.closures ++ [k] := by
  simp [closures, done]

/-- What closing the connection does to the channel. -/
theorem onConnection_closed (ch : RaftRpcChannel μ) :
    ch.onConnection false =
      { ch with
        connected := false
        pendingRequests := []
        timers := ch.timers.filter fun t => ch.pendingRequests.all fun e => t.1 ≠ e.2.timerId
        runs := ch.runs ++
          ch.pendingRequests.map fun e => (e.2.done, .failed "connection already closed") } := by
  have hfold : ∀ (p : PendingRequests μ) (ch : RaftRpcChannel μ),
      p.foldl (fun ch e =>
        (ch.cancel e.2.timerId).done e.2.done (.failed "connection already closed")) ch =
      { ch with
        timers := ch.timers.filter fun t => p.all fun e => t.1 ≠ e.2.timerId
        runs := ch.runs ++ p.map fun e => (e.2.done, .failed "connection already closed") } := by
    intro p
    induction p with
    | nil => simp
    | cons e p ih =>
      intro ch
      rw [List.foldl_cons, ih]
      simp [cancel, done, Bool.and_comm]
  unfold onConnection
  rw [if_neg Bool.false_ne_true, hfold]

end RaftRpcChannel

namespace Session

variable {μ : Type}

def init : Session μ where
  channel := RaftRpcChannel.init
  issued := []
  due := []

def step (order : ByteOrder) (data : Codec RaftRpcData) (s : Session μ) :
    ChannelEvent μ → Option (Session μ)
  | .call c => some
    { s with
      channel := s.channel.callMethod order data c
      issued := s.issued ++ [(s.channel.calls, s.channel.sequenceId)] }
  | .response packet =>
    let named := match deserialize data packet with
      | some u => (s.issued.filter fun i => i.2 = u.sequenceId).map (·.1)
      | none => []
    some { s with
      channel := (s.channel.handlePacket data packet).1
      due := s.due ++ named }
  | .timeout timerId =>
    match s.channel.timers.find? fun t => t.1 = timerId with
    | some t => some
      { s with
        channel := (s.channel.cancel timerId).handleTimeout t.2
        due := s.due ++ [timerId] }
    | none => none
  | .connection connected => some
    { s with
      channel := s.channel.onConnection connected
      due := if connected then s.due else s.due ++ s.issued.map (·.1) }

/-- What the channel relies on: a new call gets an id that no pending request has, and the
response of a pending request has a payload that its class can parse. -/
def InOrder (data : Codec RaftRpcData) (s : Session μ) : ChannelEvent μ → Prop
  | .call _ => s.channel.pendingRequests.find s.channel.sequenceId = none
  | .response packet =>
    ∀ u context, RaftRpcChannel.requestOf data s.channel.pendingRequests packet =
      some (u, context) → (context.response u.payload).isSome = true
  | _ => True

/-- Every closure has been run at most once, and those that are due exactly once. -/
def Completes (s : Session μ) : Prop :=
  (∀ k, s.channel.closures.count k ≤ 1) ∧ ∀ k ∈ s.due, s.channel.closures.count k = 1

/-- A pending request is a call whose closure has not been run and whose timer is armed,
and every other call has had its closure run. -/
structure Sound (s : Session μ) : Prop where
  ordered : s.channel.pendingRequests.Ordered
  number : ∀ i ∈ s.issued, i.1 < s.channel.calls
  issuedOnce : (s.issued.map (·.1)).Nodup
  entry : ∀ n c, s.channel.pendingRequests.find n = some c →
    (c.done, n) ∈ s.issued ∧ c.timerId = c.done ∧ c.done ∉ s.channel.closures
  settled : ∀ i ∈ s.issued, i.1 ∈ s.channel.closures ∨
    ∃ c, s.channel.pendingRequests.find i.2 = some c ∧ c.done = i.1
  once : s.channel.closures.Nodup
  ran : ∀ k ∈ s.channel.closures, k < s.channel.calls
  armed : ∀ t ∈ s.channel.timers, ∃ c, s.channel.pendingRequests.find t.2 = some c ∧
    c.timerId = t.1
  due : ∀ k ∈ s.due, k ∈ s.channel.closures

theorem init_sound : (init : Session μ).Sound where
  ordered := List.Pairwise.nil
  number := by simp [init]
  issuedOnce := List.nodup_nil
  entry := by simp [init, RaftRpcChannel.init]
  settled := by simp [init]
  once := List.nodup_nil
  ran := by simp [init, RaftRpcChannel.init, RaftRpcChannel.closures]
  armed := by simp [init, RaftRpcChannel.init]
  due := by simp [init]

theorem Sound.exactlyOnce {s : Session μ} (h : s.Sound) : s.Completes := by
  constructor
  · exact List.nodup_iff_count_le_one.mp h.once
  · intro k hk
    exact List.count_eq_one_of_mem h.once (h.due k hk)

/-! ## Steps -/

section Steps

variable {order : ByteOrder} {data : Codec RaftRpcData} {s t : Session μ} {n k : Nat}
  {c : CallMethodContext μ}

theorem Sound.more_due (h : s.Sound) {ks : List Nat} (hks : ∀ k ∈ ks, k ∈ s.channel.closures) :
    Sound { s with due := s.due ++ ks } where
  ordered := h.ordered
  number := h.number
  issuedOnce := h.issuedOnce
  entry := h.entry
  settled := h.settled
  once := h.once
  ran := h.ran
  armed := h.armed
  due := by
    intro k hk
    rcases List.mem_append.mp hk with hk | hk
    · exact h.due k hk
    · exact hks k hk

/-- The pending request of a call. -/
theorem Sound.issued_unique (h : s.Sound) {m : Nat} (hn : (k, n) ∈ s.issued)
    (hm : (k, m) ∈ s.issued) : n = m :=
  congrArg Prod.snd (List.inj_on_of_nodup_map h.issuedOnce hn hm rfl)

/-- A pending request is taken out, its timer is cancelled and its closure is run. -/
theorem Sound.settle (h : s.Sound) (hc : s.channel.pendingRequests.find n = some c)
    (o : Outcome μ) :
    Sound { s with
      channel := { s.channel.cancel c.timerId with
        pendingRequests := s.channel.pendingRequests.erase n }.done c.done o } := by
  obtain ⟨hissued, htimer, hfresh⟩ := h.entry n c hc
  have hother : ∀ m d, m ≠ n → s.channel.pendingRequests.find m = some d → d.done ≠ c.done := by
    intro m d hm hd he
    have hmem := (h.entry m d hd).1
    rw [he] at hmem
    exact hm (h.issued_unique hmem hissued)
  constructor
  case ordered => exact h.ordered.erase
  case number => exact h.number
  case issuedOnce => exact h.issuedOnce
  case entry =>
    intro m d hd
    have hfind : (s.channel.pendingRequests.erase n).find m = some d := hd
    rw [PendingRequests.find_erase] at hfind
    split at hfind
    · cases hfind
    · next hm =>
      obtain ⟨hmem, hd', hnot⟩ := h.entry m d hfind
      refine ⟨hmem, hd', ?_⟩
      rw [RaftRpcChannel.closures_done, List.mem_append, List.mem_singleton, not_or]
      exact ⟨hnot, hother m d hm hfind⟩
  case settled =>
    intro i hi
    rw [RaftRpcChannel.closures_done, List.mem_append, List.mem_singleton]
    rcases h.settled i hi with hrun | ⟨d, hd, hid⟩
    · exact .inl (.inl hrun)
    · by_cases hm : i.2 = n
      · rw [hm, hc] at hd
        obtain rfl := Option.some.inj hd
        exact .inl (.inr hid.symm)
      · right
        refine ⟨d, ?_, hid⟩
        show (s.channel.pendingRequests.erase n).find i.2 = some d
        rw [PendingRequests.find_erase, if_neg hm]
        exact hd
  case once =>
    rw [RaftRpcChannel.closures_done]
    rw [← List.concat_eq_append]
    exact List.Nodup.concat hfresh h.once
  case ran =>
    intro k hk
    rw [RaftRpcChannel.closures_done, List.mem_append, List.mem_singleton] at hk
    rcases hk with hk | rfl
    · exact h.ran k hk
    · exact h.number _ hissued
  case armed =>
    intro t ht
    have hmem : t ∈ s.channel.timers.filter fun t => t.1 ≠ c.timerId := ht
    obtain ⟨hmem, hne⟩ := List.mem_filter.mp hmem
    obtain ⟨d, hd, hdt⟩ := h.armed t hmem
    refine ⟨d, ?_, hdt⟩
    show (s.channel.pendingRequests.erase n).find t.2 = some d
    rw [PendingRequests.find_erase, if_neg]
    · exact hd
    · intro he
      rw [he, hc] at hd
      obtain rfl := Option.some.inj hd
      simp [hdt] at hne
  case due =>
    intro k hk
    rw [RaftRpcChannel.closures_done, List.mem_append]
    exact .inl (h.due k hk)

theorem Sound.number_issue (h : s.Sound) (n : Nat) :
    ∀ i ∈ s.issued ++ [(s.channel.calls, n)], i.1 < s.channel.calls + 1 := by
  intro i hi
  rcases List.mem_append.mp hi with hi | hi
  · exact Nat.lt_succ_of_lt (h.number i hi)
  · rw [List.mem_singleton.mp hi]
    exact Nat.lt_succ_self _

/-- A new call has a closure of its own. -/
theorem Sound.issuedOnce_issue (h : s.Sound) (n : Nat) :
    ((s.issued ++ [(s.channel.calls, n)]).map (·.1)).Nodup := by
  rw [List.map_append, List.map_singleton, ← List.concat_eq_append]
  refine List.Nodup.concat ?_ h.issuedOnce
  intro hmem
  obtain ⟨i, hi, hcalls⟩ := List.mem_map.mp hmem
  have hlt := h.number i hi
  omega

/-- A call that fails at once. -/
theorem Sound.refuse (h : s.Sound) (o : Outcome μ) (sequenceId : Nat) :
    Sound { s with
      channel := { s.channel with
        sequenceId := sequenceId
        calls := s.channel.calls + 1 }.done s.channel.calls o
      issued := s.issued ++ [(s.channel.calls, s.channel.sequenceId)] } := by
  have hnew : s.channel.calls ∉ s.channel.closures := fun hk => absurd (h.ran _ hk) (by omega)
  have hclosures : ({ s.channel with
      sequenceId := sequenceId
      calls := s.channel.calls + 1 }.done s.channel.calls o).closures =
      s.channel.closures ++ [s.channel.calls] := RaftRpcChannel.closures_done _ _ _
  constructor
  case ordered => exact h.ordered
  case number => exact h.number_issue _
  case issuedOnce => exact h.issuedOnce_issue _
  case entry =>
    intro m d hd
    obtain ⟨hmem, htimer, hnot⟩ := h.entry m d hd
    refine ⟨List.mem_append_left _ hmem, htimer, ?_⟩
    rw [hclosures, List.mem_append, List.mem_singleton, not_or]
    exact ⟨hnot, Nat.ne_of_lt (h.number _ hmem)⟩
  case settled =>
    intro i hi
    rw [hclosures, List.mem_append, List.mem_singleton]
    rcases List.mem_append.mp hi with hi | hi
    · exact (h.settled i hi).imp_left .inl
    · left
      right
      rw [List.mem_singleton.mp hi]
  case once =>
    rw [hclosures]
    rw [← List.concat_eq_append]
    exact List.Nodup.concat hnew h.once
  case ran =>
    intro k hk
    show k < s.channel.calls + 1
    rw [hclosures, List.mem_append, List.mem_singleton] at hk
    rcases hk with hk | rfl
    · have := h.ran k hk
      omega
    · exact Nat.lt_succ_self _
  case armed => exact h.armed
  case due =>
    intro k hk
    rw [hclosures, List.mem_append]
    exact .inl (h.due k hk)

/-- A call that is sent, under an id that no pending request has. -/
theorem Sound.register (h : s.Sound)
    (hfree : s.channel.pendingRequests.find s.channel.sequenceId = none)
    (response : Bytes → Option μ) (sequenceId : Nat) (sent : List Bytes) :
    Sound { s with
      channel := { s.channel with
        sequenceId := sequenceId
        calls := s.channel.calls + 1
        timers := s.channel.timers ++ [(s.channel.calls, s.channel.sequenceId)]
        pendingRequests := s.channel.pendingRequests.assign s.channel.sequenceId
          { response := response, done := s.channel.calls, timerId := s.channel.calls }
        sent := sent }
      issued := s.issued ++ [(s.channel.calls, s.channel.sequenceId)] } := by
  have hnew : s.channel.calls ∉ s.channel.closures := fun hk => absurd (h.ran _ hk) (by omega)
  have hkeeps : ∀ m d, s.channel.pendingRequests.find m = some d → m ≠ s.channel.sequenceId := by
    rintro m d hd rfl
    rw [hfree] at hd
    cases hd
  constructor
  case ordered => exact h.ordered.assign
  case number => exact h.number_issue _
  case issuedOnce => exact h.issuedOnce_issue _
  case entry =>
    intro m d hd
    dsimp only at hd
    rw [PendingRequests.find_assign] at hd
    split at hd
    · next hm =>
      obtain rfl := Option.some.inj hd
      refine ⟨List.mem_append_right _ ?_, rfl, hnew⟩
      rw [hm]
      exact List.mem_singleton_self _
    · obtain ⟨hmem, htimer, hnot⟩ := h.entry m d hd
      exact ⟨List.mem_append_left _ hmem, htimer, hnot⟩
  case settled =>
    intro i hi
    dsimp only
    rw [PendingRequests.find_assign]
    rcases List.mem_append.mp hi with hi | hi
    · apply (h.settled i hi).imp_right
      rintro ⟨d, hd, hid⟩
      exact ⟨d, by rw [if_neg (hkeeps _ _ hd), hd], hid⟩
    · right
      rw [List.mem_singleton.mp hi, if_pos rfl]
      exact ⟨_, rfl, rfl⟩
  case once => exact h.once
  case ran =>
    intro k hk
    show k < s.channel.calls + 1
    have := h.ran k hk
    omega
  case armed =>
    intro t ht
    dsimp only
    rw [PendingRequests.find_assign]
    rcases List.mem_append.mp ht with ht | ht
    · obtain ⟨d, hd, hdt⟩ := h.armed t ht
      exact ⟨d, by rw [if_neg (hkeeps _ _ hd), hd], hdt⟩
    · rw [List.mem_singleton.mp ht, if_pos rfl]
      exact ⟨_, rfl, rfl⟩
  case due => exact h.due

/-- The closures of different pending requests differ. -/
theorem Sound.pending_nodup (h : s.Sound) :
    (s.channel.pendingRequests.map fun e => e.2.done).Nodup := by
  apply List.pairwise_map.mpr
  apply h.ordered.imp_of_mem
  intro e f he hf hlt hsame
  have hmem := (h.entry e.1 e.2 (h.ordered.find_of_mem he)).1
  rw [hsame] at hmem
  have := h.issued_unique hmem (h.entry f.1 f.2 (h.ordered.find_of_mem hf)).1
  omega

/-- The connection closes: all pending requests are settled. -/
theorem Sound.close (h : s.Sound) :
    Sound { s with
      channel := s.channel.onConnection false
      due := s.due ++ s.issued.map (·.1) } := by
  rw [RaftRpcChannel.onConnection_closed]
  have hall : ∀ i ∈ s.issued,
      i.1 ∈ s.channel.closures ++ s.channel.pendingRequests.map fun e => e.2.done := by
    intro i hi
    rcases h.settled i hi with hrun | ⟨c, hc, hci⟩
    · exact List.mem_append_left _ hrun
    · apply List.mem_append_right
      exact List.mem_map.mpr ⟨_, PendingRequests.mem_of_find hc, hci⟩
  have hclosures : ∀ ch : RaftRpcChannel μ,
      ch.runs = s.channel.runs ++ s.channel.pendingRequests.map
        (fun e => (e.2.done, .failed "connection already closed")) →
      ch.closures = s.channel.closures ++ s.channel.pendingRequests.map fun e => e.2.done := by
    intro ch hch
    unfold RaftRpcChannel.closures
    rw [hch, List.map_append, List.map_map]
    rfl
  constructor
  case ordered => exact List.Pairwise.nil
  case number => exact h.number
  case issuedOnce => exact h.issuedOnce
  case entry => exact fun n c hc => nomatch hc
  case settled =>
    intro i hi
    rw [hclosures _ rfl]
    exact .inl (hall i hi)
  case once =>
    rw [hclosures _ rfl]
    apply List.nodup_append.mpr ⟨h.once, h.pending_nodup, ?_⟩
    rintro a ha b hb rfl
    obtain ⟨e, he, rfl⟩ := List.mem_map.mp hb
    exact (h.entry e.1 e.2 (h.ordered.find_of_mem he)).2.2 ha
  case ran =>
    intro k hk
    rw [hclosures _ rfl, List.mem_append] at hk
    rcases hk with hk | hk
    · exact h.ran k hk
    · obtain ⟨e, he, rfl⟩ := List.mem_map.mp hk
      exact h.number _ (h.entry e.1 e.2 (h.ordered.find_of_mem he)).1
  case armed =>
    intro t ht
    dsimp only at ht
    obtain ⟨hmem, hkept⟩ := List.mem_filter.mp ht
    obtain ⟨c, hc, hct⟩ := h.armed t hmem
    have hne := List.all_eq_true.mp hkept _ (PendingRequests.mem_of_find hc)
    simp [hct] at hne
  case due =>
    intro k hk
    rw [hclosures _ rfl]
    rcases List.mem_append.mp hk with hk | hk
    · exact List.mem_append_left _ (h.due k hk)
    · obtain ⟨i, hi, rfl⟩ := List.mem_map.mp hk
      exact hall i hi

theorem Sound.call (h : s.Sound)
    (hfree : s.channel.pendingRequests.find s.channel.sequenceId = none) (m : MethodCall μ) :
    Sound { s with
      channel := s.channel.callMethod order data m
      issued := s.issued ++ [(s.channel.calls, s.channel.sequenceId)] } := by
  unfold RaftRpcChannel.callMethod
  dsimp only
  cases m.request.bind (serialize data m.serviceName m.methodName s.channel.sequenceId) with
  | none => exact h.refuse _ _
  | some packet =>
    dsimp only
    split
    · exact h.register hfree _ _ _
    · exact h.refuse _ _

/-- No request is pending under the id, so the calls with this id have had their closures
run. -/
theorem Sound.gone (h : s.Sound) (hn : s.channel.pendingRequests.find n = none) :
    ∀ k ∈ (s.issued.filter fun i => i.2 = n).map (·.1), k ∈ s.channel.closures := by
  intro k hk
  obtain ⟨i, hi, rfl⟩ := List.mem_map.mp hk
  obtain ⟨hi, hin⟩ := List.mem_filter.mp hi
  rcases h.settled i hi with hrun | ⟨c, hc, _⟩
  · exact hrun
  · rw [of_decide_eq_true hin, hn] at hc
    cases hc

theorem Sound.response (h : s.Sound) {packet : Bytes}
    (hparses : s.InOrder data (.response packet))
    (hs : s.step order data (.response packet) = some t) : t.Sound := by
  obtain rfl := Option.some.inj hs
  unfold RaftRpcChannel.handlePacket
  cases hu : deserialize data packet with
  | none =>
    have hr : RaftRpcChannel.requestOf data s.channel.pendingRequests packet = none := by
      simp [RaftRpcChannel.requestOf, hu]
    rw [hr]
    exact h.more_due fun k hk => absurd hk List.not_mem_nil
  | some u =>
    cases hc : s.channel.pendingRequests.find u.sequenceId with
    | none =>
      have hr : RaftRpcChannel.requestOf data s.channel.pendingRequests packet = none := by
        simp [RaftRpcChannel.requestOf, hu, hc]
      rw [hr]
      exact h.more_due (h.gone hc)
    | some c =>
      have hr : RaftRpcChannel.requestOf data s.channel.pendingRequests packet = some (u, c) := by
        simp [RaftRpcChannel.requestOf, hu, hc]
      obtain ⟨m, hm⟩ := Option.isSome_iff_exists.mp (hparses u c hr)
      rw [hr]
      dsimp only
      rw [hm]
      have hsettled := h.settle hc (.response m)
      apply hsettled.more_due
      apply hsettled.gone
      show (s.channel.pendingRequests.erase u.sequenceId).find u.sequenceId = none
      rw [PendingRequests.find_erase, if_pos rfl]

theorem Sound.timeout (h : s.Sound) {timerId : Nat}
    (hs : s.step order data (.timeout timerId) = some t) : t.Sound := by
  simp only [step] at hs
  cases hf : s.channel.timers.find? fun t => t.1 = timerId with
  | none =>
    rw [hf] at hs
    cases hs
  | some armed =>
    rw [hf] at hs
    obtain rfl := Option.some.inj hs
    obtain ⟨c, hc, hct⟩ := h.armed armed (List.mem_of_find?_eq_some hf)
    obtain rfl : armed.1 = timerId := by simpa using List.find?_some hf
    have hpending : (s.channel.cancel armed.1).pendingRequests.find armed.2 = some c := hc
    have hdone : c.done = armed.1 := (h.entry _ _ hc).2.1.symm.trans hct
    unfold RaftRpcChannel.handleTimeout
    rw [hpending]
    have hsettled := h.settle hc (.failed "request timeout")
    rw [hct] at hsettled
    apply hsettled.more_due
    intro k hk
    rw [List.mem_singleton.mp hk, ← hdone, RaftRpcChannel.closures_done]
    apply List.mem_append_right
    exact List.mem_singleton_self _

theorem Sound.step (h : s.Sound) {e : ChannelEvent μ} (hok : s.InOrder data e)
    (hs : s.step order data e = some t) : t.Sound := by
  cases e with
  | call m =>
    obtain rfl := Option.some.inj hs
    exact h.call hok m
  | response packet => exact h.response hok hs
  | timeout timerId => exact h.timeout hs
  | connection connected =>
    obtain rfl := Option.some.inj hs
    cases connected with
    | false => exact h.close
    | true => exact ⟨h.ordered, h.number, h.issuedOnce, h.entry, h.settled, h.once, h.ran,
        h.armed, h.due⟩

end Steps

/-- Every call completes exactly once, in every run of calls and events that stays in
order. -/
theorem completes (order : ByteOrder) (data : Codec RaftRpcData) (es : List (ChannelEvent μ))
    (s : Session μ) (hr : Transition.Run (Session.step order data) (InOrder data) init es s) :
    s.Completes := by
  apply Sound.exactlyOnce
  apply hr.invariant _ init_sound
  intro s e t hs hok hst
  exact hs.step hok hst

end Session

/-! ## One call -/

/-- A response to the first call whose payload ends within a field. -/
def brokenData : RaftRpcData :=
  { voteData 1 with payloadSize := 1, payloadChecksum := 0xDCD967BF, payload := [8] }

def brokenPacket : Bytes :=
  votePacket 1 ++ [0x25, 1, 0, 0, 0] ++ [0x2D, 0xBF, 0x67, 0xD9, 0xDC] ++ [0x32, 1, 8]

def brokenCodec : Codec RaftRpcData :=
  Codec.ofRows [(voteData 1, votePacket 1), (brokenData, brokenPacket)]

namespace Session

/-- The response is answered at once and again when the timer fires. -/
theorem completes_twice : ∃ s, Transition.Run (step .little brokenCodec) (fun _ _ => True) init
    [.connection true, .call voteMethod, .response brokenPacket, .timeout 0] s ∧
      ¬ s.Completes := by
  obtain ⟨s, hr, hs⟩ := Transition.Run.exists_of_exec
    (p := fun s : Session Unit => s.channel.closures.count 0 = 2)
    (show (Transition.exec (step .little brokenCodec) (fun _ _ => True) init
      [.connection true, .call voteMethod, .response brokenPacket, .timeout 0]).map
        (fun s => decide (s.channel.closures.count 0 = 2)) = some true from rfl)
  refine ⟨s, hr, ?_⟩
  intro hc
  have htwo : s.channel.closures.count 0 = 2 := of_decide_eq_true hs
  have hone := hc.1 0
  omega

theorem completes_vote : ∃ s, Transition.Run (step .little brokenCodec) (InOrder brokenCodec) init
    [.connection true, .call voteMethod, .response (votePacket 1)] s ∧
      s.Completes ∧ s.due = [0] := by
  obtain ⟨s, hr, hdue⟩ : ∃ s, Transition.Run (step .little brokenCodec) (InOrder brokenCodec) init
      [.connection true, .call voteMethod, .response (votePacket 1)] s ∧ s.due = [0] := by
    refine ⟨_, .cons trivial rfl (.cons rfl rfl (.cons ?_ rfl (.nil _))), rfl⟩
    intro u c hu
    have he : (({ serviceName := (voteData 1).serviceName
                  methodName := (voteData 1).methodName
                  sequenceId := 1
                  payload := [] },
        { response := voteMethod.response, done := 0, timerId := 0 }) :
          Unpacked × CallMethodContext Unit) = (u, c) := Option.some.inj hu
    obtain ⟨rfl, rfl⟩ := Prod.mk.inj he
    rfl
  exact ⟨s, hr, completes .little brokenCodec _ s hr, hdue⟩

end Session

end Rpc

end WWRaftKV
