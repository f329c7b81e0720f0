/-
A process as its core and its clerk see each other.

Most facts about one node look at the core, its file, the messages between core and
clerk in any order, and what has been handed over.  `Upholds` says what an invariant of
such a view has to survive, and `Upholds.reaches` is the induction over runs, done once.
-/
import Mathlib.Data.List.Perm.Basic
import WWRaftKV.Node.Model

namespace WWRaftKV

/-- A message between the core and the clerk of one process. -/
def RaftMessage.isLocal : RaftMessage → Bool
  | .applyCommitLogsRequest _ => true
  | .applyCommitLogsResponse _ => true
  | .generateSnapshotRequest _ => true
  | .generateSnapshotResponse _ => true
  | .applySnapshotRequest _ => true
  | .applySnapshotResponse _ => true
  | _ => false

/-- The message that an input takes out of the channel. -/
def Input.taken : Input → List RaftMessage
  | .message m => [m]
  | _ => []

/-! ## Queues -/

/-- All messages of the queue satisfy `P`, and at most `n` of them are of the kind `q`. -/
structure Queues (P : RaftMessage → Prop) (q : RaftMessage → Bool) (n : Nat)
    (ch : List RaftMessage) : Prop where
  each : ∀ m ∈ ch, P m
  few : ch.countP q ≤ n

namespace Queues

variable {P P' : RaftMessage → Prop} {q : RaftMessage → Bool} {n n' : Nat}
  {ch ch' : List RaftMessage} {m x : RaftMessage}

theorem nil : Queues P q n [] :=
  ⟨fun _ hm => absurd hm List.not_mem_nil, Nat.zero_le _⟩

theorem perm (h : Queues P q n ch) (hp : ch.Perm ch') : Queues P q n ch' where
  each := fun m hm => h.each m (hp.mem_iff.mpr hm)
  few := by
    rw [← hp.countP_eq]
    exact h.few

theorem drop (h : Queues P q n (m :: ch)) : Queues P q n ch where
  each := fun x hx => h.each x (List.mem_cons_of_mem _ hx)
  few := by
    have hfew := h.few
    rw [List.countP_cons] at hfew
    omega

theorem cons (h : Queues P q n ch) (hm : P m) (hn : (m :: ch).countP q ≤ n') :
    Queues P q n' (m :: ch) where
  each := by
    intro x hx
    rcases List.mem_cons.mp hx with rfl | hx
    · exact hm
    · exact h.each x hx
  few := hn

/-- A message of another kind. -/
theorem other (h : Queues P q n ch) (hm : P m) (hq : q m = false) :
    Queues P q n (m :: ch) := by
  apply h.cons hm
  simp only [List.countP_cons, hq, Bool.false_eq_true, if_false, Nat.add_zero]
  exact h.few

/-- A message takes the place of one of the same kind. -/
theorem swap (h : Queues P q n (x :: ch)) (hm : P m) (hq : q m = q x) :
    Queues P q n (m :: ch) := by
  apply h.drop.cons hm
  have hfew := h.few
  rw [List.countP_cons] at hfew ⊢
  rwa [hq]

theorem mono (h : Queues P q n ch) (hP : ∀ m ∈ ch, P m → P' m) (hn : n ≤ n') :
    Queues P' q n' ch where
  each := fun m hm => hP m hm (h.each m hm)
  few := Nat.le_trans h.few hn

/-- Next to the one message of its kind there is none of that kind. -/
theorem countP_eq_zero (h : Queues P q 1 (m :: ch)) (hq : q m = true) : ch.countP q = 0 := by
  have hfew := h.few
  rw [List.countP_cons_of_pos hq] at hfew
  omega

end Queues

structure View where
  raft : Raft
  file : Option RaftPersistData
  channel : List RaftMessage
  handed : List (Int × RaftLogEntry)

namespace View

def init (id : Int) (ids : List Int) (file : Option RaftPersistData) : View where
  raft := restart id ids file
  file := file
  channel := []
  handed := []

/-- The view with another channel. -/
@[simps]
def withChannel (v : View) (ch : List RaftMessage) : View := { v with channel := ch }

/-- The view after a step of the core that leaves `rest` in the channel. -/
@[simps]
def react (v : View) (i : Input) (rest : List RaftMessage) : View where
  raft := (v.raft.react i).raft
  file := (v.raft.react i).persisted.getLast?.or v.file
  channel := rest ++ (v.raft.react i).pushed
  handed := v.handed ++ handedBy (v.raft.react i).pushed

end View

/-- The file is the last one written, or the old one. -/
theorem file_ind {Q : Option RaftPersistData → Prop} {file : Option RaftPersistData}
    {ds : List RaftPersistData} (h : Q file) (hd : ∀ d ∈ ds, Q (some d)) :
    Q (ds.getLast?.or file) := by
  cases hl : ds.getLast? with
  | none => exact h
  | some d => exact hd d (List.mem_of_getLast? hl)

/-- `I` holds of a live process, and `D` of a process that may have ended. -/
structure Upholds (ok : Raft → Input → Prop) (I D : View → Prop) : Prop where
  perm : ∀ v ch, I v → v.channel.Perm ch → I (v.withChannel ch)
  permWeak : ∀ v ch, D v → v.channel.Perm ch → D (v.withChannel ch)
  receive : ∀ v m, I v → m.isLocal = false → I (v.withChannel (m :: v.channel))
  drop : ∀ v m ch, I v → v.channel = m :: ch → I (v.withChannel ch)
  answer : ∀ v b m x ch, I v → v.channel = x :: ch → clerkAnswer b x = some m →
    I (v.withChannel (m :: ch))
  core : ∀ v i ch, I v → v.channel = i.taken ++ ch → ok v.raft i →
    (v.raft.react i).thrown = false → I (v.react i ch)
  dies : ∀ v i ch, I v → v.channel = i.taken ++ ch → ok v.raft i → D (v.react i ch)
  weak : ∀ v, I v → D v

namespace Process

def view (p : Process) : View where
  raft := p.raft
  file := p.file
  channel := p.channel
  handed := p.handed

variable {p p' : Process}

/-- The view after a step of the core, up to the order of the channel. -/
theorem view_react {i : Input} {cause : Option Nat} (hr : p'.raft = p.raft)
    (hf : p'.file = p.file) (hh : p'.history = p.history) :
    (p'.react i cause).view =
      (p.view.react i p'.channel).withChannel (p'.react i cause).channel := by
  simp only [view, handed, View.react, View.withChannel, react, hr, hf, hh, List.flatMap_append,
    List.flatMap_singleton, CoreStep.handed]

theorem channel_react (i : Input) (cause : Option Nat) :
    (p.channel ++ (p.raft.react i).pushed).Perm (p.react i cause).channel := by
  have hmap : ((p.raft.react i).pushed.map fun m => ({ msg := m, cause := cause } : Item)).map
      (·.msg) = (p.raft.react i).pushed := by
    rw [List.map_map]
    exact List.map_id _
  simp only [channel, react, List.map_append, hmap, List.append_assoc]
  exact (List.perm_append_comm).append_left _

/-- What the core handles comes out of the channel. -/
theorem turn_channel {e : Event} {i : Input} (hi : i ∈ p.turn e) :
    ∃ rest, p.channel.Perm (i.taken ++ rest) := by
  cases e with
  | electionTimeout =>
    obtain rfl := Option.some.inj hi
    exact ⟨p.channel, List.Perm.refl _⟩
  | heartbeatTimeout =>
    obtain rfl := Option.some.inj hi
    exact ⟨p.channel, List.Perm.refl _⟩
  | handle =>
    cases ho : p.outter with
    | nil => simp [turn, ho] at hi
    | cons x xs =>
      simp only [turn, ho, Option.mem_def, Option.some.injEq] at hi
      subst hi
      refine ⟨(p.inner ++ xs).map (·.msg), ?_⟩
      simp only [channel, ho, List.map_append, List.map_cons]
      exact List.perm_middle
  | _ => cases hi

/-- What a turn takes is in front of the rest, up to order. -/
theorem channel_taken {i : Input} {xs outter : List Item} (hout : p.outter = xs ++ outter)
    (hxs : xs.map (·.msg) = i.taken) :
    p.channel.Perm (i.taken ++ ({ p with outter := outter } : Process).channel) := by
  have hperm : (p.inner ++ p.outter).Perm (xs ++ (p.inner ++ outter)) := by
    rw [hout]
    exact List.perm_append_comm_assoc p.inner xs outter
  have hmap := hperm.map (·.msg)
  rw [← hxs]
  simp only [channel, ← List.map_append]
  exact hmap

/-- A message that has been put behind `_Outter_channel`. -/
theorem channel_outter (p : Process) (x : Item) :
    ((p.inner ++ (p.outter ++ [x])).map (·.msg)).Perm (x.msg :: p.channel) := by
  rw [← List.append_assoc, List.map_append]
  exact List.perm_append_singleton _ _

theorem withSeq_not_isLocal {m m' : RaftMessage} {n : Nat} (h : m.withSeq n = some m') :
    m'.isLocal = false := by
  cases m with
  | requestVoteRequest m => exact Option.some.inj h ▸ rfl
  | appendEntriesRequest m => exact Option.some.inj h ▸ rfl
  | installSnapshotRequest m => exact Option.some.inj h ▸ rfl
  | _ => cases h

theorem isPeerResponse_not_isLocal {m : RaftMessage} (h : m.isPeerResponse = true) :
    m.isLocal = false := by
  cases m <;> first | rfl | cases h

/-- Every apply answer, generate answer and install answer goes behind the channel of the
core, and nothing else does. -/
theorem serve_spec (p : Process) (b : Bool) (x : Item) :
    (p.serve b x).raft = p.raft ∧ (p.serve b x).history = p.history ∧
      (p.serve b x).inner = p.inner ∧ (p.serve b x).outter = p.outter ++
        (clerkAnswer b x.msg).toList.map fun m => { x with msg := m } := by
  unfold Process.serve
  split
  · rename_i hseq
    have hnone : clerkAnswer b x.msg = none := by
      cases hm : x.msg <;> rw [hm] at hseq <;> first | rfl | cases hseq
    rw [hnone]
    exact ⟨rfl, rfl, rfl, (List.append_nil _).symm⟩
  · cases clerkAnswer b x.msg with
    | none => exact ⟨rfl, rfl, rfl, (List.append_nil _).symm⟩
    | some m => exact ⟨rfl, rfl, rfl, rfl⟩

/-- An event of a process: the core takes a turn, something arrives that is not from the
clerk, or the clerk takes a message. -/
inductive Does (p : Process) (e : Event) : Process → Prop
  | turn (i : Input) (cause : Option Nat) (xs outter : List Item) (hi : p.turn e = some i)
      (hout : p.outter = xs ++ outter) (hxs : xs.map (·.msg) = i.taken) :
      Does p e ({ p with outter := outter }.react i cause)
  | arrives (x : Option Item) (p' : Process) (hi : p.turn e = none)
      (hx : ∀ y ∈ x, y.msg.isLocal = false) (hraft : p'.raft = p.raft)
      (hfile : p'.file = p.file) (hhistory : p'.history = p.history)
      (hinner : p'.inner = p.inner) (hout : p'.outter = p.outter ++ x.toList) : Does p e p'
  | attends (b : Bool) (x : Item) (xs : List Item) (hi : p.turn e = none)
      (hinner : p.inner = x :: xs) : Does p e ({ p with inner := xs }.serve b x)

theorem does_of_step {e : Event} (hs : p.step e = some p') : p.alive = true ∧ p.Does e p' := by
  unfold step at hs
  split at hs
  case isFalse => cases hs
  refine ⟨‹_›, ?_⟩
  cases e with
  | electionTimeout =>
    obtain rfl := Option.some.inj hs
    exact .turn .electionTimeout none [] p.outter rfl rfl rfl
  | heartbeatTimeout =>
    obtain rfl := Option.some.inj hs
    exact .turn .heartbeatTimeout none [] p.outter rfl rfl rfl
  | handle =>
    cases ho : p.outter with
    | nil => simp [stepAlive, ho] at hs
    | cons x xs =>
      simp only [stepAlive, ho, Option.some.injEq] at hs
      subst hs
      exact .turn (.message x.msg) x.cause [x] xs (by simp [turn, ho]) ho rfl
  | request conn m =>
    obtain ⟨m', hm, rfl⟩ := Option.map_eq_some_iff.mp hs
    refine .arrives (some { msg := m', cause := some p.requests }) _ rfl ?_ rfl rfl rfl rfl rfl
    intro y hy
    rw [← Option.some.inj hy]
    exact withSeq_not_isLocal hm
  | lostRequest conn =>
    obtain rfl := Option.some.inj hs
    exact .arrives none _ rfl (fun y hy => nomatch hy) rfl rfl rfl rfl (List.append_nil _).symm
  | response m =>
    simp only [stepAlive] at hs
    split at hs
    case isFalse => cases hs
    rename_i hm
    obtain rfl := Option.some.inj hs
    refine .arrives (some { msg := m }) _ rfl ?_ rfl rfl rfl rfl rfl
    intro y hy
    rw [← Option.some.inj hy]
    exact isPeerResponse_not_isLocal hm
  | operation m =>
    obtain rfl := Option.some.inj hs
    refine .arrives (some { msg := .kvOperationRequest m }) _ rfl ?_ rfl rfl rfl rfl rfl
    intro y hy
    rw [← Option.some.inj hy]
    rfl
  | clerk b =>
    cases hx : p.inner with
    | nil => simp [stepAlive, hx] at hs
    | cons x xs =>
      simp only [stepAlive, hx, Option.some.injEq] at hs
      subst hs
      exact .attends b x xs rfl hx

end Process

namespace Upholds

open Process

variable {ok : Raft → Input → Prop} {I D : View → Prop} {p p' : Process}

/-- A change of the channel alone. -/
theorem of_perm (h : Upholds ok I D) {ch : List RaftMessage} (hv : I (p.view.withChannel ch))
    (hr : p'.raft = p.raft) (hf : p'.file = p.file) (hh : p'.history = p.history)
    (hc : ch.Perm p'.channel) : I p'.view := by
  have hw := h.perm _ p'.channel hv hc
  rwa [show (p.view.withChannel ch).withChannel p'.channel = p'.view by
    simp only [View.withChannel, view, handed, hr, hf, hh]] at hw

theorem step_core (h : Upholds ok I D) {i : Input} {cause : Option Nat} (hi : I p.view)
    (hg : ok p.raft i) (hr : p'.raft = p.raft) (hf : p'.file = p.file)
    (hh : p'.history = p.history) (hc : p.channel.Perm (i.taken ++ p'.channel)) :
    ((p'.react i cause).alive = true → I (p'.react i cause).view) ∧
      D (p'.react i cause).view := by
  have hch := channel_react (p := p') i cause
  have hv := h.perm p.view _ hi hc
  rw [hr] at hch
  rw [view_react hr hf hh]
  constructor
  · intro ha
    have hthrown : (p.raft.react i).thrown = false := by
      rw [← hr]
      simpa [react] using ha
    exact h.perm (p.view.react i p'.channel) _
      (h.core (p.view.withChannel (i.taken ++ p'.channel)) i p'.channel hv rfl hg hthrown) hch
  · exact h.permWeak (p.view.react i p'.channel) _
      (h.dies (p.view.withChannel (i.taken ++ p'.channel)) i p'.channel hv rfl hg) hch

theorem step_clerk (h : Upholds ok I D) {b : Bool} {x : Item} {xs : List Item}
    (hi : I p.view) (hx : p.inner = x :: xs) : I ({ p with inner := xs }.serve b x).view := by
  have hch : p.channel = x.msg :: (xs ++ p.outter).map (·.msg) := by
    rw [channel, hx]
    rfl
  unfold serve
  cases x.msg.replySeq with
  | some seq => exact h.of_perm (h.drop p.view x.msg _ hi hch) rfl rfl rfl (List.Perm.refl _)
  | none =>
    cases hm : clerkAnswer b x.msg with
    | none => exact h.of_perm (h.drop p.view x.msg _ hi hch) rfl rfl rfl (List.Perm.refl _)
    | some m =>
      exact h.of_perm (h.answer p.view b m x.msg _ hi hch hm) rfl rfl rfl
        (channel_outter { p with inner := xs } { x with msg := m }).symm

theorem step_receive (h : Upholds ok I D) {x : Item} (hi : I p.view)
    (hx : x.msg.isLocal = false) (hr : p'.raft = p.raft) (hf : p'.file = p.file)
    (hh : p'.history = p.history) (hin : p'.inner = p.inner)
    (hout : p'.outter = p.outter ++ [x]) : I p'.view := by
  refine h.of_perm (h.receive p.view x.msg hi hx) hr hf hh ?_
  show (x.msg :: p.channel).Perm ((p'.inner ++ p'.outter).map (·.msg))
  rw [hin, hout]
  exact (channel_outter p x).symm

theorem step (h : Upholds ok I D) {e : Event} (hi : p.alive = true → I p.view)
    (hg : p.Obeys ok e) (hs : p.step e = some p') :
    (p'.alive = true → I p'.view) ∧ D p'.view := by
  obtain ⟨halive, hdoes⟩ := does_of_step hs
  have hp := hi halive
  have hlive : ∀ {q : Process}, I q.view → (q.alive = true → I q.view) ∧ D q.view :=
    fun hq => ⟨fun _ => hq, h.weak _ hq⟩
  cases hdoes with
  | turn i cause xs outter hi hout hxs =>
    exact h.step_core hp (hg i hi) rfl rfl rfl (channel_taken hout hxs)
  | arrives x _ _ hx hraft hfile hhistory hinner hout =>
    cases x with
    | none =>
      have hperm : p.channel.Perm p'.channel := by
        rw [channel, channel, hinner, hout, Option.toList_none, List.append_nil]
      exact hlive (h.of_perm hp hraft hfile hhistory hperm)
    | some x => exact hlive (h.step_receive hp (hx x rfl) hraft hfile hhistory hinner hout)
  | attends b x xs _ hinner => exact hlive (h.step_clerk hp hinner)

/-- An invariant that rests on one that is upheld already. -/
theorem and (h : Upholds ok I D) {J : View → Prop}
    (perm : ∀ v ch, J v → v.channel.Perm ch → J (v.withChannel ch))
    (receive : ∀ v m, J v → m.isLocal = false → J (v.withChannel (m :: v.channel)))
    (drop : ∀ v m ch, J v → v.channel = m :: ch → J (v.withChannel ch))
    (answer : ∀ v b m x ch, J v → v.channel = x :: ch → clerkAnswer b x = some m →
      J (v.withChannel (m :: ch)))
    (core : ∀ v i ch, I v → J v → v.channel = i.taken ++ ch → ok v.raft i →
      (v.raft.react i).thrown = false → J (v.react i ch)) :
    Upholds ok (fun v => I v ∧ J v) D where
  perm := fun v ch hv hp => ⟨h.perm v ch hv.1 hp, perm v ch hv.2 hp⟩
  permWeak := h.permWeak
  receive := fun v m hv hm => ⟨h.receive v m hv.1 hm, receive v m hv.2 hm⟩
  drop := fun v m ch hv hc => ⟨h.drop v m ch hv.1 hc, drop v m ch hv.2 hc⟩
  answer := fun v b m x ch hv hc hm =>
    ⟨h.answer v b m x ch hv.1 hc hm, answer v b m x ch hv.2 hc hm⟩
  core := fun v i ch hv hc hg ht =>
    ⟨h.core v i ch hv.1 hc hg ht, core v i ch hv.1 hv.2 hc hg ht⟩
  dies := fun v i ch hv hc hg => h.dies v i ch hv.1 hc hg
  weak := fun v hv => h.weak v hv.1

/-- An invariant of the view holds in every state that a run reaches. -/
theorem reaches (h : Upholds ok I D) {id : Int} {ids : List Int}
    {file : Option RaftPersistData} (h0 : I (View.init id ids file))
    (hr : Reaches (Obeys ok) id ids file p) : (p.alive = true → I p.view) ∧ D p.view := by
  obtain ⟨es, hr⟩ := hr
  refine hr.invariant (I := fun p => (p.alive = true → I p.view) ∧ D p.view) ?_
    ⟨fun _ => h0, h.weak _ h0⟩
  exact fun s e t hi hg hs => h.step hi.1 hg hs

/-- An invariant that every file of the node lets a new process start with holds over all
its lives. -/
theorem lives (h : Upholds ok I D) {id : Int} {ids : List Int}
    {F : Option RaftPersistData → Prop} (hn : F none)
    (h0 : ∀ file, F file → I (View.init id ids file)) (hF : ∀ v, D v → F v.file)
    (hl : Lives (Obeys ok) id ids p) : (p.alive = true → I p.view) ∧ D p.view := by
  induction hl with
  | first hr => exact h.reaches (h0 none hn) hr
  | again _ hr ih => exact h.reaches (h0 _ (hF _ ih.2)) hr

end Upholds

end WWRaftKV
