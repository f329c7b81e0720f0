/-
The worker thread of the asynchronous logger.

Producers append to one buffer under the lock.  The worker swaps it against its own, hands
the bytes of that to the callback and resets it.  The steps of the worker are those between
which a producer or `stop` can come: it reads `running` and looks whether the producers'
buffer is empty without the lock.
-/
import WWRaftKV.General.Run
import WWRaftKV.Logger.Formatter

namespace WWRaftKV

namespace Logger

/-! ## The buffer -/

structure LoggerBuffer where
  buffer : Text
  writePos : Nat
  readPos : Nat
deriving DecidableEq

namespace LoggerBuffer

/-- `LoggerBuffer(std::size_t size)`. -/
def make (size : Nat) : LoggerBuffer where
  buffer := List.replicate size (Char.ofNat 0)
  writePos := 0
  readPos := 0

/-- `push`.  `none` is a `memcpy` beyond the end of the vector. -/
def push (b : LoggerBuffer) (data : Text) : Option LoggerBuffer :=
  if b.writePos + data.length ≤ b.buffer.length then
    some { b with
      buffer := b.buffer.take b.writePos ++ data ++ b.buffer.drop (b.writePos + data.length)
      writePos := b.writePos + data.length }
  else none

/-- `read`: where the data starts and how much it is. -/
def read (b : LoggerBuffer) : (Nat × Nat) × LoggerBuffer :=
  ((b.readPos, b.writePos - b.readPos), { b with readPos := b.writePos })

def empty (b : LoggerBuffer) : Bool := b.writePos == b.readPos

/-- The sizes of vectors and strings are so far below `2 ^ 64` that the sum does not wrap
around. -/
def available (b : LoggerBuffer) (size : Nat) : Bool := b.writePos + size ≤ b.buffer.length

def reset (b : LoggerBuffer) : LoggerBuffer := { b with writePos := 0, readPos := 0 }

/-- `size` bytes from `data` on. -/
def slice (b : LoggerBuffer) (data size : Nat) : Text := (b.buffer.drop data).take size

/-- What has been written and not read. -/
def unread (b : LoggerBuffer) : Text := b.slice b.readPos (b.writePos - b.readPos)

/-- The positions lie within the buffer and in order. -/
structure Valid (b : LoggerBuffer) : Prop where
  order : b.readPos ≤ b.writePos
  bound : b.writePos ≤ b.buffer.length

variable {b b' : LoggerBuffer} {data : Text}

theorem make_valid (size : Nat) : (make size).Valid :=
  ⟨Nat.le_refl _, Nat.zero_le _⟩

theorem make_unread (size : Nat) : (make size).unread = [] := by
  simp [make, unread, slice]

theorem reset_valid (b : LoggerBuffer) : b.reset.Valid :=
  ⟨Nat.le_refl _, Nat.zero_le _⟩

theorem reset_unread (b : LoggerBuffer) : b.reset.unread = [] := by
  simp [reset, unread, slice]

theorem read_valid (h : b.Valid) : b.read.2.Valid :=
  ⟨Nat.le_refl _, h.bound⟩

theorem unread_eq_nil (h : b.Valid) : b.unread = [] ↔ b.empty = true := by
  have horder := h.order
  have hbound := h.bound
  have hlen : b.unread.length = b.writePos - b.readPos := by
    simp only [unread, slice, List.length_take, List.length_drop]
    omega
  rw [← List.length_eq_zero_iff, hlen, empty, beq_iff_eq]
  omega

/-- A message that fits is put behind what is there. -/
theorem push_spec (h : b.Valid) (hfit : b.available data.length = true) :
    ∃ b', b.push data = some b' ∧ b'.Valid ∧ b'.unread = b.unread ++ data := by
  have horder := h.order
  have hbound := h.bound
  have hsum : b.writePos + data.length ≤ b.buffer.length := by simpa [available] using hfit
  have hfront : (b.buffer.take b.writePos).length = b.writePos := by
    rw [List.length_take]
    omega
  refine ⟨_, if_pos hsum, ⟨?_, ?_⟩, ?_⟩
  · show b.readPos ≤ b.writePos + data.length
    omega
  · simp only [List.length_append, List.length_take, List.length_drop]
    omega
  · have hdrop : (b.buffer.take b.writePos ++ data ++
        b.buffer.drop (b.writePos + data.length)).drop b.readPos =
        b.unread ++ data ++ b.buffer.drop (b.writePos + data.length) := by
      rw [List.append_assoc, List.append_assoc, List.drop_append_of_le_length (by omega),
        List.drop_take]
      rfl
    have hlen : (b.unread ++ data).length = b.writePos + data.length - b.readPos := by
      simp only [unread, slice, List.length_append, List.length_take, List.length_drop]
      omega
    show ((b.buffer.take b.writePos ++ data ++
        b.buffer.drop (b.writePos + data.length)).drop b.readPos).take
          (b.writePos + data.length - b.readPos) = _
    rw [hdrop, ← hlen, List.take_left]

end LoggerBuffer

/-! ## The worker -/

/-- Where the thread is in `workingThread`. -/
inductive WorkerPc
  /-- Before `running.load()` in the loop condition. -/
  | loopTest
  /-- Before `producter_buffer.empty()` in the loop condition. -/
  | emptyTest
  /-- In `consumer_cv.wait`. -/
  | waiting
  | reading
  | calling (data size : Nat)
  | resetting
  | ended
deriving DecidableEq

/-- `called` are the bytes that the callback has been given.  `broken` is set by a write
beyond the end of a buffer. -/
structure AsyncWorker where
  producterBuffer : LoggerBuffer
  consumerBuffer : LoggerBuffer
  running : Bool
  pc : WorkerPc
  called : Text
  broken : Bool

inductive WorkerEvent (π : Type)
  /-- The part of `push` under the lock. -/
  | push (producer : π) (data : Text)
  /-- `running.store(false)`.  A second `stop` would join the joined thread. -/
  | stop
  /-- One step of the thread. -/
  | work

namespace AsyncWorker

def make (size : Nat) : AsyncWorker where
  producterBuffer := LoggerBuffer.make size
  consumerBuffer := LoggerBuffer.make size
  running := true
  pc := .loopTest
  called := []
  broken := false

/-- `none` where the thread waits for the lock or the condition, or has ended. -/
def workingThread (w : AsyncWorker) : Option AsyncWorker :=
  match w.pc with
  | .loopTest => some { w with pc := if w.running then .waiting else .emptyTest }
  | .emptyTest => some { w with pc := if w.producterBuffer.empty then .ended else .waiting }
  | .waiting =>
    if !w.running || !w.producterBuffer.empty then
      some { w with
        producterBuffer := w.consumerBuffer
        consumerBuffer := w.producterBuffer
        pc := .reading }
    else none
  | .reading =>
    let ((data, size), b) := w.consumerBuffer.read
    some { w with consumerBuffer := b, pc := .calling data size }
  | .calling data size =>
    some { w with called := w.called ++ w.consumerBuffer.slice data size, pc := .resetting }
  | .resetting => some { w with consumerBuffer := w.consumerBuffer.reset, pc := .loopTest }
  | .ended => none

/-- `none` where the thread that acts has to wait. -/
def step {π : Type} (w : AsyncWorker) : WorkerEvent π → Option AsyncWorker
  | .push _ data =>
    if w.producterBuffer.available data.length then
      match w.producterBuffer.push data with
      | some b => some { w with producterBuffer := b }
      | none => some { w with broken := true }
    else none
  | .stop => if w.running then some { w with running := false } else none
  | .work => w.workingThread

/-! ## What the worker has -/

variable {π : Type} {w w' : AsyncWorker} {past : List (WorkerEvent π)}

/-- The messages of a sequence of events, in the order of their pushes. -/
def pushed (events : List (WorkerEvent π)) : List Text :=
  events.filterMap fun
    | .push _ data => some data
    | _ => none

theorem pushed_append (xs ys : List (WorkerEvent π)) :
    pushed (xs ++ ys) = pushed xs ++ pushed ys := List.filterMap_append

theorem pushed_prefix {xs ys : List (WorkerEvent π)} (h : xs <+: ys) :
    (pushed xs).flatten <+: (pushed ys).flatten := by
  obtain ⟨zs, rfl⟩ := h
  rw [pushed_append, List.flatten_append]
  exact List.prefix_append _ _

/-- The bytes that the worker has taken over and not handed on. -/
def inFlight (w : AsyncWorker) : Text :=
  match w.pc with
  | .reading => w.consumerBuffer.unread
  | .calling data size => w.consumerBuffer.slice data size
  | _ => []

/-- The worker's own buffer is as after `reset`, or as at the start. -/
def Idle (w : AsyncWorker) : Prop :=
  w.pc = .loopTest ∨ w.pc = .emptyTest ∨ w.pc = .waiting ∨ w.pc = .ended

/-- All that was pushed has been handed on, or is in flight, or waits, in this order. -/
structure Inv (past : List (WorkerEvent π)) (w : AsyncWorker) : Prop where
  producter : w.producterBuffer.Valid
  consumer : w.consumerBuffer.Valid
  idle : w.Idle → w.consumerBuffer.unread = []
  bytes : w.called ++ w.inFlight ++ w.producterBuffer.unread = (pushed past).flatten
  unbroken : w.broken = false
  stopped : w.pc = .emptyTest ∨ w.pc = .ended → w.running = false
  final : w.pc = .ended → ∀ before, before ++ [.stop] <+: past →
    (pushed before).flatten <+: w.called

theorem make_inv (size : Nat) : Inv ([] : List (WorkerEvent π)) (make size) where
  producter := LoggerBuffer.make_valid size
  consumer := LoggerBuffer.make_valid size
  idle _ := LoggerBuffer.make_unread size
  bytes := LoggerBuffer.make_unread size
  unbroken := rfl
  stopped h := by rcases h with h | h <;> cases h
  final h := by cases h

/-- The events before `stop` are among those before the next event, when that is another. -/
theorem before_stop {before : List (WorkerEvent π)} {e : WorkerEvent π} (he : e ≠ .stop)
    (h : before ++ [.stop] <+: past ++ [e]) : before ++ [.stop] <+: past := by
  rcases List.prefix_concat_iff.mp h with heq | hle
  · obtain ⟨-, hlast⟩ := List.append_inj' heq rfl
    exact absurd (List.head_eq_of_cons_eq hlast).symm he
  · exact hle

theorem Inv.push {p : π} {data : Text} (h : Inv past w)
    (hs : w.step (.push p data) = some w') : Inv (past ++ [.push p data]) w' := by
  rw [step] at hs
  by_cases hfit : w.producterBuffer.available data.length = true
  · obtain ⟨b, hpush, hvalid, hunread⟩ := LoggerBuffer.push_spec h.producter hfit
    rw [if_pos hfit, hpush] at hs
    obtain rfl := Option.some.inj hs
    have hpushed : (pushed (past ++ [WorkerEvent.push p data])).flatten =
        (pushed past).flatten ++ data := by
      rw [pushed_append, List.flatten_append]
      simp [pushed]
    refine ⟨hvalid, h.consumer, h.idle, ?_, h.unbroken, h.stopped, fun hend before hle => ?_⟩
    · rw [hpushed, ← h.bytes, List.append_assoc (w.called ++ w.inFlight), ← hunread]
      rfl
    · exact h.final hend before (before_stop (fun he => by cases he) hle)
  · rw [if_neg hfit] at hs
    cases hs

/-- `stop` is called while the thread runs, so not behind its end. -/
theorem Inv.stop (h : Inv past w) (hs : w.step (π := π) .stop = some w') :
    Inv (past ++ [.stop]) w' := by
  rw [step] at hs
  by_cases hrun : w.running = true
  · rw [if_pos hrun] at hs
    obtain rfl := Option.some.inj hs
    have hpushed : pushed (past ++ [WorkerEvent.stop]) = pushed past := by
      rw [pushed_append]
      exact List.append_nil _
    refine ⟨h.producter, h.consumer, h.idle, ?_, h.unbroken, fun _ => rfl, fun hend => ?_⟩
    · rw [hpushed]
      exact h.bytes
    · have hstopped := h.stopped (.inr hend)
      rw [hrun] at hstopped
      cases hstopped
  · rw [if_neg hrun] at hs
    cases hs

/-- What a step of the thread has to keep; it pushes nothing. -/
theorem Inv.of_work (h : Inv past w) (hproducter : w'.producterBuffer.Valid)
    (hconsumer : w'.consumerBuffer.Valid) (hidle : w'.Idle → w'.consumerBuffer.unread = [])
    (hbytes : w'.called ++ w'.inFlight ++ w'.producterBuffer.unread =
      w.called ++ w.inFlight ++ w.producterBuffer.unread)
    (hbroken : w'.broken = w.broken)
    (hstopped : w'.pc = .emptyTest ∨ w'.pc = .ended → w'.running = false)
    (hfinal : w'.pc = .ended → w'.called = (pushed past).flatten) :
    Inv (past ++ [.work]) w' := by
  have hpushed : pushed (past ++ [WorkerEvent.work]) = pushed past := by
    rw [pushed_append]
    exact List.append_nil _
  refine ⟨hproducter, hconsumer, hidle, ?_, hbroken.trans h.unbroken, hstopped, ?_⟩
  · rw [hpushed, hbytes, h.bytes]
  · intro hend before hle
    have hpast : before ++ [.stop] <+: past := before_stop (fun he => by cases he) hle
    rw [hfinal hend]
    exact pushed_prefix ((List.prefix_append _ _).trans hpast)

/-- A step to a place inside of the loop. -/
theorem Inv.of_working (h : Inv past w) (hproducter : w'.producterBuffer.Valid)
    (hconsumer : w'.consumerBuffer.Valid) (hidle : w'.Idle → w'.consumerBuffer.unread = [])
    (hbytes : w'.called ++ w'.inFlight ++ w'.producterBuffer.unread =
      w.called ++ w.inFlight ++ w.producterBuffer.unread)
    (hbroken : w'.broken = w.broken) (hpc : w'.pc ≠ .emptyTest) (hend : w'.pc ≠ .ended) :
    Inv (past ++ [.work]) w' := by
  refine h.of_work hproducter hconsumer hidle hbytes hbroken ?_ (fun he => absurd he hend)
  intro hpc'
  cases hpc' with
  | inl hempty => exact absurd hempty hpc
  | inr hended => exact absurd hended hend

theorem Inv.loopTest (h : Inv past w) (hpc : w.pc = .loopTest) :
    Inv (past ++ [.work]) { w with pc := if w.running then .waiting else .emptyTest } := by
  have hflight : w.inFlight = [] := by rw [inFlight, hpc]
  have hidle := h.idle (.inl hpc)
  cases hrun : w.running with
  | true =>
    refine h.of_working h.producter h.consumer (fun _ => hidle) ?_ rfl (by simp) (by simp)
    rw [hflight]
    rfl
  | false =>
    refine h.of_work h.producter h.consumer (fun _ => hidle) ?_ rfl (fun _ => rfl) (by simp)
    rw [hflight]
    rfl

/-- The thread ends where nothing is in flight and nothing waits, so all has been handed on. -/
theorem Inv.emptyTest (h : Inv past w) (hpc : w.pc = .emptyTest) :
    Inv (past ++ [.work])
      { w with pc := if w.producterBuffer.empty then .ended else .waiting } := by
  have hflight : w.inFlight = [] := by rw [inFlight, hpc]
  have hidle := h.idle (.inr (.inl hpc))
  have hstopped := h.stopped (.inl hpc)
  cases hempty : w.producterBuffer.empty with
  | true =>
    refine h.of_work h.producter h.consumer (fun _ => hidle) ?_ rfl (fun _ => hstopped) ?_
    · rw [hflight]
      rfl
    · intro _
      have hbytes := h.bytes
      rw [hflight, (LoggerBuffer.unread_eq_nil h.producter).mpr hempty, List.append_nil,
        List.append_nil] at hbytes
      exact hbytes
  | false =>
    refine h.of_working h.producter h.consumer (fun _ => hidle) ?_ rfl (by simp) (by simp)
    rw [hflight]
    rfl

/-- The swap takes over what waits, and leaves an empty buffer to the producers. -/
theorem Inv.swap (h : Inv past w) (hpc : w.pc = .waiting) :
    Inv (past ++ [.work])
      { w with
        producterBuffer := w.consumerBuffer
        consumerBuffer := w.producterBuffer
        pc := .reading } := by
  have hflight : w.inFlight = [] := by rw [inFlight, hpc]
  have hidle := h.idle (.inr (.inr (.inl hpc)))
  refine h.of_working h.consumer h.producter ?_ ?_ rfl (by simp) (by simp)
  · simp [Idle]
  · rw [hflight]
    show w.called ++ w.producterBuffer.unread ++ w.consumerBuffer.unread = _
    rw [hidle, List.append_nil, List.append_nil]

theorem Inv.reading (h : Inv past w) (hpc : w.pc = .reading) :
    Inv (past ++ [.work])
      { w with
        consumerBuffer := w.consumerBuffer.read.2
        pc := .calling w.consumerBuffer.read.1.1 w.consumerBuffer.read.1.2 } := by
  have hflight : w.inFlight = w.consumerBuffer.unread := by rw [inFlight, hpc]
  refine h.of_working h.producter (LoggerBuffer.read_valid h.consumer) ?_ ?_ rfl (by simp)
    (by simp)
  · simp [Idle]
  · rw [hflight]
    rfl

/-- What was in flight has been handed on. -/
theorem Inv.calling {data size : Nat} (h : Inv past w) (hpc : w.pc = .calling data size) :
    Inv (past ++ [.work])
      { w with called := w.called ++ w.consumerBuffer.slice data size, pc := .resetting } := by
  have hflight : w.inFlight = w.consumerBuffer.slice data size := by rw [inFlight, hpc]
  refine h.of_working h.producter h.consumer ?_ ?_ rfl (by simp) (by simp)
  · simp [Idle]
  · rw [hflight]
    show w.called ++ w.consumerBuffer.slice data size ++ [] ++ w.producterBuffer.unread = _
    rw [List.append_nil]

theorem Inv.resetting (h : Inv past w) (hpc : w.pc = .resetting) :
    Inv (past ++ [.work])
      { w with consumerBuffer := w.consumerBuffer.reset, pc := .loopTest } := by
  have hflight : w.inFlight = [] := by rw [inFlight, hpc]
  refine h.of_working h.producter (LoggerBuffer.reset_valid _)
    (fun _ => LoggerBuffer.reset_unread _) ?_ rfl (by simp) (by simp)
  rw [hflight]
  rfl

theorem Inv.work (h : Inv past w) (hs : w.workingThread = some w') :
    Inv (past ++ [.work]) w' := by
  rw [workingThread] at hs
  cases hpc : w.pc with
  | loopTest =>
    rw [hpc] at hs
    obtain rfl := Option.some.inj hs
    exact h.loopTest hpc
  | emptyTest =>
    rw [hpc] at hs
    obtain rfl := Option.some.inj hs
    exact h.emptyTest hpc
  | waiting =>
    rw [hpc] at hs
    dsimp only at hs
    split at hs
    · obtain rfl := Option.some.inj hs
      exact h.swap hpc
    · cases hs
  | reading =>
    rw [hpc] at hs
    obtain rfl := Option.some.inj hs
    exact h.reading hpc
  | calling data size =>
    rw [hpc] at hs
    obtain rfl := Option.some.inj hs
    exact h.calling hpc
  | resetting =>
    rw [hpc] at hs
    obtain rfl := Option.some.inj hs
    exact h.resetting hpc
  | ended =>
    rw [hpc] at hs
    cases hs

theorem Inv.step (e : WorkerEvent π) (h : Inv past w) (hs : w.step e = some w') :
    Inv (past ++ [e]) w' := by
  cases e with
  | push p data => exact h.push hs
  | stop => exact h.stop hs
  | work => exact h.work hs

/-- In every run of any producers, `stop` and the thread, no write leaves the buffer and the
positions stay within it, the callback has been given a prefix of what was pushed, and once
the thread has ended, all that was pushed before `stop`. -/
theorem run_loses_nothing (size : Nat) (events : List (WorkerEvent π))
    (hr : Transition.Run step (fun _ _ => True) (make size) events w) :
    w.broken = false ∧ w.producterBuffer.Valid ∧ w.consumerBuffer.Valid ∧
      w.called <+: (pushed events).flatten ∧
      (w.pc = .ended → ∀ before after, events = before ++ .stop :: after →
        (pushed before).flatten <+: w.called) := by
  have h : Inv events w :=
    hr.invariant_history (I := Inv) (fun _ _ e _ h _ hs => h.step e hs) (make_inv size)
  refine ⟨h.unbroken, h.producter, h.consumer, ?_, fun hend before after hsplit => ?_⟩
  · rw [← h.bytes, List.append_assoc]
    exact List.prefix_append _ _
  · apply h.final hend
    rw [hsplit, List.append_cons before .stop after]
    exact List.prefix_append _ _

/-- Two messages around the first swap, and a third one behind `stop`. -/
theorem run_loses_nothing_stopped :
    ∃ w : AsyncWorker, w.broken = false ∧ w.pc = .ended ∧ ['a', 'b', 'c'] <+: w.called := by
  obtain ⟨w, hr, hend⟩ := Transition.Run.exists_of_exec (p := fun w : AsyncWorker => w.pc == .ended)
    (show (Transition.exec (step (π := Nat)) (fun _ _ => True) (make 2)
      [.push 1 ['a', 'b'], .work, .work, .push 2 ['c'], .stop, .push 1 ['d'], .work, .work,
        .work, .work, .work, .work, .work, .work, .work, .work, .work]).map
        (fun w => w.pc == .ended) = some true from by decide)
  have h := run_loses_nothing 2 _ hr
  have hpc : w.pc = .ended := of_decide_eq_true hend
  exact ⟨w, h.1, hpc, h.2.2.2.2 hpc [.push 1 ['a', 'b'], .work, .work, .push 2 ['c']] _ rfl⟩

end AsyncWorker

end Logger

end WWRaftKV
