/-
The AppendEntries calls of a node and how they end.

Every call ends with its closure.  The closure hands the response object and the controller
to the clerk, and the callback of the clerk reads the response object alone.  A call that
fails leaves that object as it was made, with term 0 and without success, and the core
takes it for the rejection of a peer (`lowersWhenRefused_iff`).
-/
import WWRaftKV.Core.Follow
import WWRaftKV.Core.Peers
import WWRaftKV.Node.Wire
import WWRaftKV.Rpc.Completion

namespace WWRaftKV

open RaftM

/-! ## Answers of a peer -/

namespace Raft

/-- What the node answers to a request, if it gets as far as an answer. -/
def answerTo (r : Raft) (m : RaftAppendEntriesRequestMessage) :
    Option RaftAppendEntriesResponseMessage :=
  (r.react (.message (.appendEntriesRequest m))).pushed.findSome? fun x => match x with
    | .appendEntriesResponse a => some a
    | _ => none

/-- The node takes the request, and its log does not match. -/
def Mismatches (r : Raft) (m : RaftAppendEntriesRequestMessage) : Prop :=
  r.term ≤ m.term ∧ r.logMatch m.prevLogIndex m.prevLogTerm = some false

instance (r : Raft) (m : RaftAppendEntriesRequestMessage) : Decidable (r.Mismatches m) := by
  unfold Mismatches
  infer_instance

/-- A mismatch is answered with a rejection. -/
theorem Mismatches.rejected {r : Raft} {m : RaftAppendEntriesRequestMessage}
    {a : RaftAppendEntriesResponseMessage} (h : r.Mismatches m) (ha : a ∈ r.answerTo m) :
    a.success = false := by
  obtain ⟨x, hx, hxa⟩ := List.exists_of_findSome?_eq_some ha
  have hmem : .appendEntriesResponse a ∈ (r.react (.message (.appendEntriesRequest m))).pushed := by
    cases x with
    | appendEntriesResponse b =>
      obtain rfl := Option.some.inj hxa
      exact hx
    | _ => cases hxa
  by_contra hs
  have hacc := accepts_of_success hmem (Bool.eq_true_of_not_eq_false hs)
  have hboth := hacc.2.symm.trans h.2
  cases hboth

end Raft

/-! ## Endings -/

/-- How a call ends. -/
inductive Ending
  /-- the peer handles the request in this state, and its response arrives -/
  | answered (seq : Nat) (peer : Raft)
  /-- `_HandleTimeout` -/
  | timeout
  /-- `CallMethod` finds no connection -/
  | notReady
  /-- `_OnConnection` -/
  | closed
  /-- `CallMethod` cannot serialize the request -/
  | unserialized
  /-- `_OnMessage` cannot parse the payload, with what `ParseFromString` has left -/
  | unparsable (left : Wire.AppendEntriesResponse)

namespace Ending

/-- The request as it arrives at the peer. -/
def arrived (seq : Nat) (q : RaftAppendEntriesRequestMessage) : RaftAppendEntriesRequestMessage :=
  Wire.handleAppendEntriesRequest seq (Wire.sendAppendEntriesRequest q)

/-- What the response object of the call holds when the closure is run. -/
def response (q : RaftAppendEntriesRequestMessage) : Ending → Option Wire.AppendEntriesResponse
  | .answered seq peer => (peer.answerTo (arrived seq q)).map Wire.sendAppendEntriesResponse
  | .unparsable left => some left
  | _ => some { term := 0, success := false, lastLogIndex := 0 }

/-- The reason that the controller of the call gives for a failure. -/
def controller : Ending → Option String
  | .answered _ _ => none
  | .timeout => some "request timeout"
  | .notReady => some "tcp connection not availavble"
  | .closed => some "connection already closed"
  | .unserialized => some "request serialization failed"
  | .unparsable _ => some "parse payload failed"

/-- The peer has rejected the request because of its log, and the request is of term `t`. -/
def Refuses (q : RaftAppendEntriesRequestMessage) (t : Nat) : Ending → Prop
  | .answered seq peer => q.term = t ∧ peer.Mismatches (arrived seq q)
  | _ => False

instance (q : RaftAppendEntriesRequestMessage) (t : Nat) (e : Ending) :
    Decidable (e.Refuses q t) := by
  induction e using Ending.casesOn <;> unfold Refuses <;> infer_instance

/-- The response to a call that has been refused. -/
theorem not_success_of_refuses {q : RaftAppendEntriesRequestMessage} {t : Nat} {e : Ending}
    {w : Wire.AppendEntriesResponse} (h : e.Refuses q t) (hw : w ∈ e.response q) :
    w.success = false := by
  cases e with
  | answered seq peer =>
    obtain ⟨a, ha, rfl⟩ := Option.map_eq_some_iff.mp hw
    exact h.2.rejected ha
  | _ => exact h.elim

end Ending

/-- `RaftClerk::_HandleAppendEntriesResponse`. -/
def RaftClerk.handleAppendEntriesResponse (id : Int) (response : Wire.AppendEntriesResponse)
    (_controller : Option String) : RaftMessage :=
  .appendEntriesResponse (Wire.handleAppendEntriesResponse id response)

/-! ## A node with its open calls -/

structure Caller where
  raft : Raft
  calls : List RaftAppendEntriesRequestMessage
  alive : Bool

inductive CallEvent
  /-- anything but the end of a call -/
  | input (i : Input)
  /-- call number `k` of the open ones ends -/
  | ends (k : Nat) (e : Ending)

/-- The AppendEntries requests among these messages. -/
def callsIn (ms : List RaftMessage) : List RaftAppendEntriesRequestMessage :=
  ms.filterMap fun m => match m with
    | .appendEntriesRequest q => some q
    | _ => none

/-- Only the end of a call brings an AppendEntries response. -/
def Input.endsCall : Input → Bool
  | .message (.appendEntriesResponse _) => true
  | _ => false

namespace Caller

def start (r : Raft) : Caller where
  raft := r
  calls := []
  alive := true

/-- The core handles the input, and the clerk makes the calls. -/
def react (s : Caller) (i : Input) (calls : List RaftAppendEntriesRequestMessage) : Caller where
  raft := (s.raft.react i).raft
  calls := calls ++ callsIn (s.raft.react i).pushed
  alive := !(s.raft.react i).thrown

def stepAlive (s : Caller) : CallEvent → Option Caller
  | .input i => if i.endsCall then none else some (s.react i s.calls)
  | .ends k e => do
    let q ← s.calls[k]?
    let w ← e.response q
    some (s.react (.message (RaftClerk.handleAppendEntriesResponse q.toId w e.controller))
      (s.calls.eraseIdx k))

def step (s : Caller) (e : CallEvent) : Option Caller :=
  if s.alive then s.stepAlive e else none

end Caller

namespace Caller

/-- The event is the end of a call to the peer that the peer has refused in the current
term because of its log. -/
def RefusedBy (s : Caller) (id : Int) : CallEvent → Prop
  | .input _ => False
  | .ends k e => ∃ q ∈ s.calls[k]?, q.toId = id ∧ e.Refuses q s.raft.term

/-- A leader lowers the next index of a peer only when the peer has refused a call. -/
def LowersWhenRefused (s : Caller) (e : CallEvent) : Prop :=
  ∀ s' ∈ s.step e, s.raft.role = .leader → s'.raft.role = .leader →
    ∀ id, ∀ n ∈ s.raft.nextIndexOf id, ∀ n' ∈ s'.raft.nextIndexOf id, n' < n → s.RefusedBy id e

/-- What the callback hands on spares the next index, or the peer has refused the call. -/
def SparesAnswer (s : Caller) (q : RaftAppendEntriesRequestMessage) (e : Ending)
    (m : RaftAppendEntriesResponseMessage) : Prop :=
  m.term ≤ s.raft.term → ∀ n ∈ s.raft.nextIndexOf q.toId,
    if m.success then n ≤ m.lastLogIndex + 1 else 1 < n → e.Refuses q s.raft.term

/-- The event leaves a leader no reason to lower a next index, or the peer has refused. -/
def Spares (s : Caller) (e : CallEvent) : Prop :=
  s.alive = true → s.raft.role = .leader → match e with
    | .input (.message (.installSnapshotResponse m)) => m.term = s.raft.term →
      ∀ n ∈ s.raft.nextIndexOf m.fromId, n ≤ s.raft.lastIncludedIndex + 1
    | .input _ => True
    | .ends k e => ∀ q ∈ s.calls[k]?, ∀ w ∈ e.response q,
      s.SparesAnswer q e (Wire.handleAppendEntriesResponse q.toId w)

section Decide

variable (s : Caller)

instance (q : RaftAppendEntriesRequestMessage) (e : Ending)
    (m : RaftAppendEntriesResponseMessage) : Decidable (s.SparesAnswer q e m) := by
  unfold SparesAnswer
  infer_instance

instance (e : CallEvent) : Decidable (s.Spares e) := by
  induction e using CallEvent.casesOn with
  | input i =>
    induction i using Input.casesOn with
    | message m => induction m using RaftMessage.casesOn <;> unfold Spares <;> infer_instance
    | _ => unfold Spares; infer_instance
  | ends k e =>
    unfold Spares
    infer_instance

end Decide

/-! ## One event -/

section Step

variable {s s' : Caller} {e : CallEvent}

theorem step_input {i : Input} (ha : s.alive = true) (hi : i.endsCall = false) :
    s.step (.input i) = some (s.react i s.calls) := by
  rw [step, if_pos ha, stepAlive, hi]
  rfl

theorem step_ends {k : Nat} {e : Ending} {q : RaftAppendEntriesRequestMessage}
    {w : Wire.AppendEntriesResponse} (ha : s.alive = true) (hq : s.calls[k]? = some q)
    (hw : e.response q = some w) :
    s.step (.ends k e) = some (s.react
      (.message (RaftClerk.handleAppendEntriesResponse q.toId w e.controller))
      (s.calls.eraseIdx k)) := by
  rw [step, if_pos ha, stepAlive, hq]
  show (e.response q).bind _ = _
  rw [hw]
  rfl

/-- What happens in an event. -/
theorem step_cases (h : s.step e = some s') : s.alive = true ∧
    ((∃ i, e = .input i ∧ i.endsCall = false ∧ s'.raft = (s.raft.react i).raft) ∨
      ∃ k d q w, e = .ends k d ∧ s.calls[k]? = some q ∧ d.response q = some w ∧
        s'.raft = (s.raft.react (.message (.appendEntriesResponse
          (Wire.handleAppendEntriesResponse q.toId w)))).raft) := by
  unfold step at h
  split at h
  case isFalse => cases h
  refine ⟨‹_›, ?_⟩
  cases e with
  | input i =>
    simp only [stepAlive] at h
    split at h
    · cases h
    · obtain rfl := Option.some.inj h
      exact .inl ⟨i, rfl, Bool.eq_false_iff.mpr ‹_›, rfl⟩
  | ends k d =>
    obtain ⟨q, hq, h⟩ := Option.bind_eq_some_iff.mp h
    obtain ⟨w, hw, h⟩ := Option.bind_eq_some_iff.mp h
    obtain rfl := Option.some.inj h
    exact .inr ⟨k, d, q, w, rfl, hq, hw, rfl⟩

/-- A leader keeps its next indices in a step that brings no answer of a peer. -/
theorem keeps_nextIndexOf {r : Raft} {i : Input} (hr : r.role = .leader)
    (hr' : (r.react i).raft.role = .leader)
    (hi : ∀ m, i ≠ .message (.appendEntriesResponse m))
    (hi' : ∀ m, i ≠ .message (.installSnapshotResponse m)) (id : Int) :
    (r.react i).raft.nextIndexOf id = r.nextIndexOf id := by
  cases Raft.react_peers r i with
  | keep hpeers => exact Raft.nextIndexOf_of_peers hpeers id
  | stepDown hf =>
    rw [hf] at hr'
    cases hr'
  | elected m hm =>
    subst hm
    rw [Raft.react_vote_of_leader hr]
  | confirmed m _ hm => exact absurd hm (hi m)
  | refused m _ hm => exact absurd hm (hi m)
  | shipped m _ hm => exact absurd hm (hi' m)

/-- The acknowledgement of a snapshot. -/
theorem spares_shipped {m : RaftInstallSnapshotResponseMessage} :
    s.LowersWhenRefused (.input (.message (.installSnapshotResponse m))) ↔
      s.Spares (.input (.message (.installSnapshotResponse m))) := by
  constructor
  · intro h ha hr ht n hn
    obtain ⟨p, hp, rfl⟩ := Option.map_eq_some_iff.mp hn
    have hraft := Raft.react_shipped hr ht hp
    have hnext := Raft.nextIndexOf_updatePeer (congrArg Raft.peers hraft) (fun _ => rfl) hp
      m.fromId
    rw [if_pos rfl] at hnext
    by_contra hlt
    exact h _ (step_input ha rfl) hr ((congrArg Raft.role hraft).trans hr) m.fromId _ hn _
      hnext (Int.not_le.mp hlt)
  · intro h s' hs hr hr' id n hn n' hn' hlt
    obtain ⟨ha, ⟨j, hj, _, hraft⟩ | ⟨_, _, _, _, hj, _⟩⟩ := step_cases hs
    case inr => cases hj
    obtain rfl := CallEvent.input.inj hj
    rw [hraft] at hr' hn'
    cases Raft.react_peers s.raft (.message (.installSnapshotResponse m)) with
    | keep hpeers =>
      rw [Raft.nextIndexOf_of_peers hpeers, hn] at hn'
      exact absurd (Option.some.inj hn') (by omega)
    | stepDown hf =>
      rw [hf] at hr'
      cases hr'
    | elected _ hm => cases hm
    | confirmed _ _ hm => cases hm
    | refused _ _ hm => cases hm
    | shipped _ p hm _ ht hp hpeers =>
      cases hm
      obtain ⟨rfl, rfl, rfl⟩ := Raft.nextIndexOf_moves hpeers (fun _ => rfl) hp hn hn'
        (by omega)
      have hle := h ha hr ht _ hn
      exact absurd hlt (Int.not_lt.mpr hle)

/-- An event that is not the end of a call. -/
theorem spares_input (i : Input) :
    s.LowersWhenRefused (.input i) ↔ s.Spares (.input i) := by
  by_cases hship : ∃ m, i = .message (.installSnapshotResponse m)
  · obtain ⟨m, rfl⟩ := hship
    exact spares_shipped
  have hspares : s.Spares (.input i) := by
    intro _ _
    cases i with
    | message m =>
      cases m with
      | installSnapshotResponse m => exact absurd ⟨m, rfl⟩ hship
      | _ => trivial
    | _ => trivial
  refine ⟨fun _ => hspares, fun _ => ?_⟩
  intro s' hs hr hr' id n hn n' hn' hlt
  obtain ⟨ha, ⟨j, hj, hends, hraft⟩ | ⟨_, _, _, _, hj, _⟩⟩ := step_cases hs
  case inr => cases hj
  obtain rfl := CallEvent.input.inj hj
  rw [hraft] at hr' hn'
  have hsame := keeps_nextIndexOf hr hr' (fun m hm => by rw [hm] at hends; cases hends)
    (fun m hm => hship ⟨m, hm⟩) id
  rw [hsame, hn] at hn'
  exact absurd (Option.some.inj hn') (by omega)

/-- The end of a call. -/
theorem spares_ends (k : Nat) (e : Ending) :
    s.LowersWhenRefused (.ends k e) ↔ s.Spares (.ends k e) := by
  constructor
  · intro h ha hr q hq w hw ht n hn
    obtain ⟨p, hp, rfl⟩ := Option.map_eq_some_iff.mp hn
    obtain ⟨hrole, _⟩ := Raft.react_answered hr ht hp
    have hnext := Raft.nextIndexOf_answered hr ht hp
    have hlower := h _ (step_ends ha hq hw) hr hrole q.toId _ hn _ hnext
    split
    · rename_i hsucc
      rw [if_pos hsucc] at hlower
      by_contra hlt
      -- a peer that has refused has not answered with success
      obtain ⟨q', hq', _, href⟩ := hlower (Int.not_le.mp hlt)
      obtain rfl := Option.some.inj (hq.symm.trans hq')
      have hfalse := Ending.not_success_of_refuses href hw
      rw [show w.success = true from hsucc] at hfalse
      cases hfalse
    · rename_i hsucc
      intro hone
      rw [if_neg hsucc, if_pos hone] at hlower
      obtain ⟨q', hq', _, href⟩ := hlower (by omega)
      obtain rfl := Option.some.inj (hq.symm.trans hq')
      exact href
  · intro h s' hs hr hr' id n hn n' hn' hlt
    obtain ⟨ha, ⟨_, hj, _⟩ | ⟨k', d, q, w, hj, hq, hw, hraft⟩⟩ := step_cases hs
    case inl => cases hj
    obtain ⟨rfl, rfl⟩ := CallEvent.ends.inj hj
    rw [hraft] at hr' hn'
    have hspares := h ha hr q hq w hw
    cases Raft.react_peers s.raft (.message (.appendEntriesResponse
      (Wire.handleAppendEntriesResponse q.toId w))) with
    | keep hpeers =>
      rw [Raft.nextIndexOf_of_peers hpeers, hn] at hn'
      exact absurd (Option.some.inj hn') (by omega)
    | stepDown hf =>
      rw [hf] at hr'
      cases hr'
    | elected _ hm => cases hm
    | confirmed m p hm _ ht hp hsucc hpeers =>
      cases hm
      obtain ⟨rfl, rfl, rfl⟩ := Raft.nextIndexOf_moves hpeers (fun _ => rfl) hp hn hn'
        (by omega)
      have hle := hspares ht _ hn
      rw [if_pos hsucc] at hle
      exact absurd hlt (Int.not_lt.mpr hle)
    | refused m p hm _ ht hp hsucc hone hpeers =>
      cases hm
      obtain ⟨rfl, rfl, rfl⟩ := Raft.nextIndexOf_moves hpeers (fun _ => rfl) hp hn hn'
        (by omega)
      have hle := hspares ht _ hn
      rw [if_neg (by rw [hsucc]; exact Bool.false_ne_true)] at hle
      exact ⟨q, hq, rfl, hle hone⟩
    | shipped _ _ hm => cases hm

theorem lowersWhenRefused_iff (s : Caller) (e : CallEvent) :
    s.LowersWhenRefused e ↔ s.Spares e := by
  cases e with
  | input i => exact spares_input i
  | ends k e => exact spares_ends k e

/-- A call that fails, other than on its payload, is spared only where the next index is at
its least. -/
theorem spares_failed_iff {k : Nat} {e : Ending} {q : RaftAppendEntriesRequestMessage}
    (ha : s.alive = true) (hr : s.raft.role = .leader) (hq : s.calls[k]? = some q)
    (he : e = .timeout ∨ e = .notReady ∨ e = .closed ∨ e = .unserialized) :
    s.Spares (.ends k e) ↔ ∀ n ∈ s.raft.nextIndexOf q.toId, n ≤ 1 := by
  obtain ⟨hresp, href⟩ : e.response q = some { term := 0, success := false, lastLogIndex := 0 } ∧
      ¬ e.Refuses q s.raft.term := by
    rcases he with rfl | rfl | rfl | rfl <;> exact ⟨rfl, id⟩
  have hterm : Wire.toSize 0 ≤ s.raft.term := by
    unfold Wire.toSize
    exact Nat.zero_le _
  constructor
  · intro h n hn
    have hle := h ha hr q hq _ hresp hterm n hn
    by_contra hlt
    exact href (hle (Int.not_le.mp hlt))
  · intro h _ _ q' hq' w hw _ n hn
    obtain rfl := Option.some.inj (hq.symm.trans hq')
    obtain rfl := Option.some.inj (hresp.symm.trans hw)
    intro hone
    exact absurd hone (Int.not_lt.mpr (h n hn))

end Step

end Caller

/-! ## Runs -/

/-- In every run of a node with its calls: a leader lowers next indices only when a peer has
refused a call of the current term, if and only if every step spares them. -/
theorem lowersWhenRefused_along_iff (r : Raft) (es : List CallEvent) :
    Transition.Along Caller.step Caller.LowersWhenRefused (Caller.start r) es ↔
      Transition.Along Caller.step Caller.Spares (Caller.start r) es :=
  Transition.Along.congr Caller.lowersWhenRefused_iff

/-- Peer 1 takes the write of its leader, and then the answer to the heartbeat before it
does not come in time. -/
def heartbeatTimesOut : List CallEvent :=
  [.input .electionTimeout,
    .input (.message (.requestVoteResponse { term := 1, voteGranted := true })),
    .input (.message (.kvOperationRequest
      { uuid := ['u'], seq := 1, opType := .put, key := ['a'], value := ['1'] })),
    .ends 2 (.answered 1 (Raft.make 1 [0, 1, 2])), .ends 0 .timeout]

theorem timeout_lowers :
    ¬ ∀ (r : Raft) (es : List CallEvent),
      Transition.Along Caller.step Caller.LowersWhenRefused (Caller.start r) es := by
  intro h
  have hrun := (Transition.Along.congr Caller.lowersWhenRefused_iff).mp
    (h (Raft.make 0 [0, 1, 2]) heartbeatTimesOut)
  exact absurd hrun (by decide +kernel)

/-! ## The endings of the channel -/

namespace Rpc

variable {order : ByteOrder} {data : Codec RaftRpcData}
  {s t : Session Wire.AppendEntriesResponse} {e : ChannelEvent Wire.AppendEntriesResponse}

/-- The reason of the controller with which a closure is run. -/
def Outcome.reason {μ : Type} : Outcome μ → Option String
  | .response _ => none
  | .failed reason => some reason

/-- Some call ends with this controller. -/
def Foreseen (x : Nat × Outcome Wire.AppendEntriesResponse) : Prop :=
  ∃ d : Ending, d.controller = x.2.reason

/-- What the channel adds to the closures that it has run. -/
theorem foreseen_step (h : ∀ x ∈ s.channel.runs, Foreseen x)
    (hs : s.step order data e = some t) : ∀ x ∈ t.channel.runs, Foreseen x := by
  have hone : ∀ (k : Nat) (o : Outcome Wire.AppendEntriesResponse) (d : Ending),
      d.controller = o.reason → ∀ x ∈ s.channel.runs ++ [(k, o)], Foreseen x := by
    intro k o d hd x hx
    rcases List.mem_append.mp hx with hx | hx
    · exact h x hx
    · rw [List.mem_singleton.mp hx]
      exact ⟨d, hd⟩
  cases e with
  | call c =>
    obtain rfl := Option.some.inj hs
    unfold RaftRpcChannel.callMethod
    dsimp only
    split
    · exact hone _ _ .unserialized rfl
    · split
      · exact h
      · exact hone _ _ .notReady rfl
  | response packet =>
    obtain rfl := Option.some.inj hs
    dsimp only
    unfold RaftRpcChannel.handlePacket
    split
    · exact h
    · split
      · exact hone _ _ (.unparsable { term := 0, success := false, lastLogIndex := 0 }) rfl
      · exact hone _ _ (.answered 0 (Raft.make 0 [])) rfl
  | timeout timerId =>
    unfold Session.step at hs
    dsimp only at hs
    split at hs
    · obtain rfl := Option.some.inj hs
      dsimp only
      unfold RaftRpcChannel.handleTimeout
      split
      · exact h
      · exact hone _ _ .timeout rfl
    · cases hs
  | connection connected =>
    obtain rfl := Option.some.inj hs
    cases connected with
    | true => exact h
    | false =>
      dsimp only
      rw [RaftRpcChannel.onConnection_closed]
      intro x hx
      rcases List.mem_append.mp hx with hx | hx
      · exact h x hx
      · obtain ⟨c, _, rfl⟩ := List.mem_map.mp hx
        exact ⟨.closed, rfl⟩

/-- Every closure that a channel runs belongs to one of the endings. -/
theorem runs_foreseen {ok : Session Wire.AppendEntriesResponse →
      ChannelEvent Wire.AppendEntriesResponse → Prop}
    {es : List (ChannelEvent Wire.AppendEntriesResponse)}
    (hr : Transition.Run (Session.step order data) ok Session.init es t) :
    ∀ x ∈ t.channel.runs, Foreseen x := by
  refine hr.invariant (fun _ _ _ h _ hs => foreseen_step h hs) fun x hx => ?_
  exact absurd hx List.not_mem_nil

end Rpc

end WWRaftKV
