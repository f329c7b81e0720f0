/-
The replies of the clerk and the closures they run.

`_Pending_requests` is keyed by the sequence id alone.  As long as no request arrives
under an id that another one still waits for, every reply finds the closure of the
request that caused it, and every request is either on its way or has been replied to
once.
-/
import WWRaftKV.Core.Answer
import WWRaftKV.Node.Model

namespace WWRaftKV

open Raft

/-! ## What is due -/

/-- The sequence id and the request of a message on its way to the clerk. -/
def Item.answers (x : Item) : Option (Nat × Option Nat) :=
  x.msg.answers.map fun n => (n, x.cause)

/-- The sequence id and the request of a message on its way to the core. -/
def Item.awaits (x : Item) : Option (Nat × Option Nat) :=
  x.msg.awaits.map fun n => (n, x.cause)

namespace Process

/-- The replies still to come, with their sequence ids and the requests they go back to. -/
def due (p : Process) : List (Nat × Option Nat) :=
  p.inner.filterMap Item.answers ++ p.outter.filterMap Item.awaits

/-- No request arrives under a sequence id that another one still waits for. -/
def FreshId (p : Process) : Event → Prop
  | .request conn _ => p.pendingRequests (p.sequenceIds conn) = none
  | _ => True

instance (p : Process) (e : Event) : Decidable (p.FreshId e) := by
  unfold FreshId
  split <;> infer_instance

/-- The process may take any event. -/
def anyEvent : Process → Event → Prop := fun _ _ => True

instance (p : Process) (e : Event) : Decidable (anyEvent p e) :=
  inferInstanceAs (Decidable True)

/-- Every reply has run the closure of the request that caused it, no closure has run
twice, and while the process lives every request is due or has been replied to. -/
structure RepliesOwn (p : Process) : Prop where
  own : ∀ x ∈ p.replies, ∃ n, x = { cause := some n, closure := some n }
  once : (p.replies.map (·.closure)).Nodup
  served : p.alive = true → (p.due.map (·.2) ++ p.replies.map (·.closure)).Perm
    ((List.range p.requests).map some)

end Process

/-! ## The table -/

/-- The table, the replies due and the replies made fit together. -/
structure Matched (due : List (Nat × Option Nat)) (pending : Nat → Option Nat)
    (requests : Nat) (replies : List Reply) : Prop where
  waiting : ∀ x ∈ due, ∃ n, x.2 = some n ∧ pending x.1 = some n
  distinct : (due.map (·.1)).Nodup
  own : ∀ x ∈ replies, ∃ n, x = { cause := some n, closure := some n }
  served : (due.map (·.2) ++ replies.map (·.closure)).Perm ((List.range requests).map some)

namespace Matched

variable {due due' : List (Nat × Option Nat)} {pending : Nat → Option Nat} {requests : Nat}
  {replies : List Reply} {seq : Nat} {cause : Option Nat}

theorem nil : Matched [] (fun _ => none) 0 [] where
  waiting := by simp
  distinct := by simp
  own := by simp
  served := by simp

theorem perm (h : Matched due pending requests replies) (hp : due.Perm due') :
    Matched due' pending requests replies where
  waiting := by
    intro x hx
    apply h.waiting x
    exact hp.mem_iff.mpr hx
  distinct := (hp.map _).nodup_iff.mp h.distinct
  own := h.own
  served := ((hp.map _).symm.append_right _).trans h.served

/-- A request under an id that nobody waits for. -/
theorem register (h : Matched due pending requests replies) (hs : pending seq = none) :
    Matched ((seq, some requests) :: due) (Function.update pending seq (some requests))
      (requests + 1) replies := by
  have hfree : ∀ x ∈ due, x.1 ≠ seq := by
    intro x hx he
    obtain ⟨n, _, hn⟩ := h.waiting x hx
    rw [he, hs] at hn
    cases hn
  constructor
  · intro x hx
    rcases List.mem_cons.mp hx with rfl | hx
    · exact ⟨requests, rfl, by simp⟩
    · obtain ⟨n, hn, hp⟩ := h.waiting x hx
      refine ⟨n, hn, ?_⟩
      rw [Function.update_of_ne (hfree x hx)]
      exact hp
  · rw [List.map_cons, List.nodup_cons]
    constructor
    · intro hm
      obtain ⟨x, hx, he⟩ := List.mem_map.mp hm
      exact hfree x hx he
    · exact h.distinct
  · exact h.own
  · rw [List.range_succ, List.map_append, List.map_cons, List.cons_append]
    exact (h.served.cons _).trans (List.perm_append_singleton _ _).symm

/-- A reply finds the closure of its own request. -/
theorem reply (h : Matched ((seq, cause) :: due) pending requests replies) :
    ∃ n, cause = some n ∧ pending seq = some n ∧
      Matched due (Function.update pending seq none) requests
        (replies ++ [{ cause := some n, closure := some n }]) := by
  obtain ⟨n, rfl, hn⟩ := h.waiting _ List.mem_cons_self
  have hd := h.distinct
  rw [List.map_cons, List.nodup_cons] at hd
  refine ⟨n, rfl, hn, ?_, hd.2, ?_, ?_⟩
  · intro x hx
    obtain ⟨k, hk, hp⟩ := h.waiting x (List.mem_cons_of_mem _ hx)
    refine ⟨k, hk, ?_⟩
    rw [Function.update_of_ne, hp]
    intro he
    apply hd.1
    rw [← he]
    exact List.mem_map.mpr ⟨x, hx, rfl⟩
  · intro x hx
    rcases List.mem_append.mp hx with hx | hx
    · exact h.own x hx
    · exact ⟨n, List.mem_singleton.mp hx⟩
  · have hs := h.served
    rw [List.map_cons, List.cons_append] at hs
    rw [List.map_append, ← List.append_assoc]
    exact (List.perm_append_singleton _ _).trans hs

theorem nodup_closures (h : Matched due pending requests replies) :
    (replies.map (·.closure)).Nodup := by
  have hr : ((List.range requests).map some).Nodup :=
    List.nodup_range.map (Option.some_injective _)
  have ha := h.served.nodup_iff.mpr hr
  exact (List.nodup_append.mp ha).2.1

end Matched

/-! ## Messages -/

section Messages

variable {m m' : RaftMessage} {n : Nat} {b : Bool}

theorem answers_of_replySeq (h : m.replySeq = some n) : m.answers = some n := by
  cases m with
  | requestVoteResponse m => exact h
  | appendEntriesResponse m => exact h
  | installSnapshotResponse m => exact h
  | _ => cases h

theorem awaits_of_withSeq (h : m.withSeq n = some m') : m'.awaits = some n := by
  cases m with
  | requestVoteRequest m => exact Option.some.inj h ▸ rfl
  | appendEntriesRequest m => exact Option.some.inj h ▸ rfl
  | installSnapshotRequest m => exact Option.some.inj h ▸ rfl
  | _ => cases h

theorem awaits_of_isPeerResponse (h : m.isPeerResponse = true) : m.awaits = none := by
  cases m with
  | requestVoteResponse m => rfl
  | appendEntriesResponse m => rfl
  | installSnapshotResponse m => rfl
  | _ => cases h

/-- The clerk hands a snapshot request back under its id. -/
theorem clerkAnswer_awaits (h : clerkAnswer b m = some m') : m'.awaits = m.answers := by
  cases m with
  | applyCommitLogsRequest q => exact Option.some.inj h ▸ rfl
  | generateSnapshotRequest q => exact Option.some.inj h ▸ rfl
  | applySnapshotRequest q =>
    obtain rfl := Option.some.inj h
    cases b <;> rfl
  | _ => cases h

theorem answers_of_clerkAnswer_none (hr : m.replySeq = none) (h : clerkAnswer b m = none) :
    m.answers = none := by
  cases m with
  | requestVoteResponse q => cases hr
  | appendEntriesResponse q => cases hr
  | installSnapshotResponse q => cases hr
  | applySnapshotRequest q => cases h
  | _ => rfl

end Messages

/-! ## Steps -/

namespace Process

def Served (p : Process) : Prop :=
  Matched p.due p.pendingRequests p.requests p.replies

variable {p p' : Process} {i : Input} {cause : Option Nat}

theorem answers_pushed (ms : List RaftMessage) (cause : Option Nat) :
    (ms.map fun m => ({ msg := m, cause := cause } : Item)).filterMap Item.answers =
      (ms.filterMap RaftMessage.answers).map fun n => (n, cause) := by
  rw [List.filterMap_map, List.map_filterMap]
  rfl

/-- A step of the core that returns turns what it took into its answer. -/
theorem due_react (ht : (p.raft.react i).thrown = false) :
    (i.awaits.toList.map (fun n => (n, cause)) ++ p.due).Perm (p.react i cause).due := by
  have hd : (p.react i cause).due = p.inner.filterMap Item.answers ++
      i.awaits.toList.map (fun n => (n, cause)) ++ p.outter.filterMap Item.awaits := by
    show (p.inner ++ (p.raft.react i).pushed.map _).filterMap Item.answers ++ _ = _
    rw [List.filterMap_append, answers_pushed, react_answers ht]
    rfl
  rw [hd]
  unfold due
  rw [← List.append_assoc]
  exact List.perm_append_comm.append_right _

theorem due_outter (p : Process) (x : Item) :
    (x.awaits.toList ++ p.due).Perm { p with outter := p.outter ++ [x] }.due := by
  show (x.awaits.toList ++ p.due).Perm
    (p.inner.filterMap Item.answers ++ (p.outter ++ [x]).filterMap Item.awaits)
  rw [List.filterMap_append, ← List.append_assoc]
  have hx : [x].filterMap Item.awaits = x.awaits.toList := by
    cases h : x.awaits <;> simp [h]
  rw [hx]
  exact List.perm_append_comm

/-- The replies that have been made, in every state, and the table of a live process. -/
structure Serves (p : Process) : Prop where
  live : p.alive = true → p.Served
  own : ∀ x ∈ p.replies, ∃ n, x = { cause := some n, closure := some n }
  once : (p.replies.map (·.closure)).Nodup

theorem Served.serves (h : p.Served) : p.Serves :=
  ⟨fun _ => h, h.own, h.nodup_closures⟩

theorem serves_react (h : Matched (i.awaits.toList.map (fun n => (n, cause)) ++ p.due)
    p.pendingRequests p.requests p.replies) : (p.react i cause).Serves := by
  refine ⟨?_, h.own, h.nodup_closures⟩
  intro ha
  have ht : (p.raft.react i).thrown = false := by simpa [react] using ha
  exact h.perm (due_react ht)

theorem serves_handle {x : Item} {xs : List Item} (h : p.Served) (hx : p.outter = x :: xs) :
    ({ p with outter := xs }.react (.message x.msg) x.cause).Serves := by
  apply serves_react
  have hd : p.due.Perm ((Input.message x.msg).awaits.toList.map (fun n => (n, x.cause)) ++
      { p with outter := xs }.due) := by
    unfold due
    rw [hx]
    show (p.inner.filterMap Item.answers ++ (x :: xs).filterMap Item.awaits).Perm
      (x.msg.awaits.toList.map (fun n => (n, x.cause)) ++
        (p.inner.filterMap Item.answers ++ xs.filterMap Item.awaits))
    cases ha : x.msg.awaits with
    | none => simp [Item.awaits, ha]
    | some n =>
      simp only [Item.awaits, ha, List.filterMap_cons, Option.map_some, Option.toList_some,
        List.map_cons, List.map_nil, List.singleton_append]
      exact List.perm_middle
  exact h.perm hd

theorem serves_clerk {b : Bool} {x : Item} {xs : List Item} (h : p.Served)
    (hx : p.inner = x :: xs) : ({ p with inner := xs }.serve b x).Serves := by
  have hd : p.due = x.answers.toList ++ { p with inner := xs }.due := by
    unfold due
    rw [hx]
    show (x :: xs).filterMap Item.answers ++ _ =
      x.answers.toList ++ (xs.filterMap Item.answers ++ p.outter.filterMap Item.awaits)
    cases ha : x.answers <;> simp [ha]
  unfold Served at h
  rw [hd] at h
  unfold serve
  cases hr : x.msg.replySeq with
  | some seq =>
    have ha : x.answers = some (seq, x.cause) := by
      simp [Item.answers, answers_of_replySeq hr]
    rw [ha] at h
    obtain ⟨n, hc, hp, hm⟩ := h.reply
    show ({ p with inner := xs }.reply seq x.cause).Serves
    unfold reply
    simp only [hc, hp]
    exact Served.serves hm
  | none =>
    cases hm : clerkAnswer b x.msg with
    | some m =>
      have ha : ({ x with msg := m } : Item).awaits = x.answers := by
        simp [Item.awaits, Item.answers, clerkAnswer_awaits hm]
      apply Served.serves
      apply h.perm
      have ho := due_outter { p with inner := xs } { x with msg := m }
      rw [ha] at ho
      exact ho
    | none =>
      have ha : x.answers = none := by
        simp [Item.answers, answers_of_clerkAnswer_none hr hm]
      rw [ha] at h
      exact Served.serves h

theorem serves_outter {x : Item} (h : p.Served) (hx : x.msg.awaits = none) :
    { p with outter := p.outter ++ [x] }.Serves := by
  have ho := due_outter p x
  have ha : x.awaits = none := by simp [Item.awaits, hx]
  rw [ha] at ho
  exact Served.serves (Matched.perm h ho)

theorem serves_step {e : Event} (h : p.Serves) (hg : p.FreshId e) (hs : p.step e = some p') :
    p'.Serves := by
  unfold step at hs
  split at hs
  case isFalse => cases hs
  next ha =>
  have hp := h.live ha
  cases e with
  | electionTimeout =>
    obtain rfl := Option.some.inj hs
    exact serves_react hp
  | heartbeatTimeout =>
    obtain rfl := Option.some.inj hs
    exact serves_react hp
  | handle =>
    cases ho : p.outter with
    | nil => simp [stepAlive, ho] at hs
    | cons x xs =>
      simp only [stepAlive, ho, Option.some.injEq] at hs
      subst hs
      exact serves_handle hp ho
  | request conn m =>
    obtain ⟨m', hm, rfl⟩ := Option.map_eq_some_iff.mp hs
    apply Served.serves
    have ho := due_outter p { msg := m', cause := some p.requests }
    have hx : ({ msg := m', cause := some p.requests } : Item).awaits =
        some (p.sequenceIds conn, some p.requests) := by
      simp [Item.awaits, awaits_of_withSeq hm]
    rw [hx] at ho
    exact (Matched.register hp hg).perm ho
  | lostRequest conn =>
    obtain rfl := Option.some.inj hs
    exact Served.serves hp
  | response m =>
    simp only [stepAlive] at hs
    split at hs
    · obtain rfl := Option.some.inj hs
      exact serves_outter hp (awaits_of_isPeerResponse ‹_›)
    · cases hs
  | operation m =>
    obtain rfl := Option.some.inj hs
    exact serves_outter hp rfl
  | clerk b =>
    cases hx : p.inner with
    | nil => simp [stepAlive, hx] at hs
    | cons x xs =>
      simp only [stepAlive, hx, Option.some.injEq] at hs
      subst hs
      exact serves_clerk hp hx

/-! ## Runs -/

/-- Replies go back to their own requests, in every run in which no request arrives under
a sequence id that another one still waits for. -/
theorem repliesOwn_of_freshId (id : Int) (ids : List Int) (file : Option RaftPersistData)
    (p : Process) (hr : Reaches FreshId id ids file p) : p.RepliesOwn := by
  obtain ⟨es, hr⟩ := hr
  have h : p.Serves := by
    apply hr.invariant (I := Serves)
    · intro q e q' hq hg hs
      exact serves_step hq hg hs
    · exact Served.serves Matched.nil
  refine ⟨h.own, h.once, ?_⟩
  intro ha
  exact (h.live ha).served

/-- Each of two peers asks for a vote, the second after the reply to the first. -/
def inTurn : List Event :=
  let ask (k : Nat) : Event := .request k (.requestVoteRequest
    { fromId := k, term := 1, lastLogIndex := 0, lastLogTerm := 0 })
  [ask 1, .handle, .clerk true, ask 2, .handle, .clerk true]

theorem repliesOwn_two :
    ∃ p, Reaches FreshId 0 [0, 1, 2] none p ∧ p.replies.length = 2 ∧ p.RepliesOwn := by
  obtain ⟨p, hr, hp⟩ := Reaches.of_exec FreshId 0 [0, 1, 2] none inTurn
    (fun p => decide (p.replies.length = 2)) (by decide +kernel)
  exact ⟨p, hr, of_decide_eq_true hp, repliesOwn_of_freshId 0 [0, 1, 2] none p hr⟩

/-- Both peers ask before the first reply.  Their first requests have the same id. -/
def together : List Event :=
  let ask (k : Nat) : Event := .request k (.requestVoteRequest
    { fromId := k, term := 1, lastLogIndex := 0, lastLogTerm := 0 })
  [ask 1, ask 2, .handle, .clerk true]

theorem reply_to_other_request :
    ¬ ∀ (id : Int) (ids : List Int) (file : Option RaftPersistData) (p : Process),
      Reaches anyEvent id ids file p → p.RepliesOwn := by
  intro h
  obtain ⟨p, hr, hp⟩ := Reaches.of_exec anyEvent 0 [0, 1, 2] none together
    (fun p => decide (p.replies = [{ cause := some 0, closure := some 1 }])) (by decide +kernel)
  have hown := (h 0 [0, 1, 2] none p hr).own
  rw [of_decide_eq_true hp] at hown
  obtain ⟨n, hn⟩ := hown _ List.mem_cons_self
  have hcause := congrArg Reply.cause hn
  have hclosure := congrArg Reply.closure hn
  exact absurd (hcause.trans hclosure.symm) (by decide)

end Process

end WWRaftKV
