/-
Threads that use the pool at the same time.

A thread goes from lock to lock.  One step of it is what it does while it holds a lock, up
to the unlocking, and the steps of the other threads come in between.  What a thread does to
its own cache after the unlocking is part of the same step, since no other thread reads it.
The blocks of a new span are cut without a lock, in a step of its own.

`none` is undefined behaviour, as in the sequential pool.
-/
import WWRaftKV.General.Mutex
import WWRaftKV.Pool.Refusal

namespace WWRaftKV

namespace Pool

/-! ## Threads -/

/-- What a thread goes on with when `returnRange` comes back. -/
inductive Then
  /-- `deallocate` is done -/
  | idle
  /-- the destructor has these lists left -/
  | drain (rest : List Nat)
deriving DecidableEq, Repr

/-- Where a thread is.  A `size` is that of the allocation, and an `index` that of the list to
which blocks go back. -/
inductive Task
  | idle
  /-- it waits for the list, and looks for a span with a free block -/
  | fetchRange (size : Nat)
  /-- it has unlocked the list, and waits for the page cache -/
  | fetchSpan (size : Nat)
  /-- it has a new span, and no lock -/
  | carve (size : Nat) (s : SpanId)
  /-- it waits for the list, with the span in blocks -/
  | pushSpan (size : Nat) (s : SpanId)
  /-- it waits for the list, and the loop of `returnRange` has these objects left -/
  | returnRange (index : Nat) (objects : List Addr) (after : Then)
  /-- it has unlocked the list, and waits for the page cache -/
  | objectToSpan (index : Nat) (object : Addr) (rest : List Addr) (after : Then)
  /-- it waits for the list, and knows the span of the object -/
  | returnObject (index : Nat) (object : Addr) (span : Option SpanId) (rest : List Addr)
      (after : Then)
  /-- it has taken the span off the list, and waits for the page cache -/
  | returnSpan (index : Nat) (s : SpanId) (rest : List Addr) (after : Then)
deriving DecidableEq, Repr

namespace Task

/-- The list of the size class of an allocation. -/
def listOf (size : Nat) : Nat := Size.sizeToIndex (Size.roundUp size)

/-- The lock that the thread takes next. -/
def lock : Task → Option Lock
  | .idle => none
  | .fetchRange size => some (.list (listOf size))
  | .fetchSpan _ => some .pages
  | .carve _ _ => none
  | .pushSpan size _ => some (.list (listOf size))
  | .returnRange index _ _ => some (.list index)
  | .objectToSpan _ _ _ _ => some .pages
  | .returnObject index _ _ _ _ => some (.list index)
  | .returnSpan _ _ _ _ => some .pages

/-- The next step may ask the system for a region. -/
def asks : Task → Bool
  | .fetchSpan _ => true
  | _ => false

end Task

structure Thread where
  cache : ThreadCache
  task : Task

/-- What a step of a thread leaves: the thread, if it has not ended, and the block that it
hands out with its size. -/
structure Turn where
  centralCache : CentralCache
  thread : Option Thread
  block : Option (Addr × Nat)

namespace Thread

/-- The loop of the destructor up to the next list that is not empty. -/
def drain : List Nat → ThreadCache → Option (Option Thread)
  | [], _ => some none
  | index :: rest, tc =>
    if (tc index).chain.isEmpty then drain rest tc
    else do
      let (list, head) ← ThreadCache.takeLoop (tc index).size (tc index) []
      some (some
        { cache := Function.update tc index list
          task := .returnRange (Size.sizeToIndex (Size.indexToSize index)) head (.drain rest) })

/-- `returnRange` has come back. -/
def resume (tc : ThreadCache) : Then → Option (Option Thread)
  | .idle => some (some { cache := tc, task := .idle })
  | .drain rest => drain rest tc

/-- The head of the loop of `returnRange`, with the list locked. -/
def returnLoop (cc : CentralCache) (tc : ThreadCache) (index : Nat) (objects : List Addr)
    (after : Then) : Option Turn :=
  match objects with
  | [] => do
    let thread ← resume tc after
    some { centralCache := cc, thread := thread, block := none }
  | object :: rest =>
    some
      { centralCache := cc
        thread := some { cache := tc, task := .objectToSpan index object rest after }
        block := none }

/-- The end of `fetchRange` with the list locked, and that of `allocate`. -/
def takeBlocks (cc : CentralCache) (tc : ThreadCache) (size : Nat) (s : SpanId) :
    Option Turn := do
  let index := Task.listOf size
  let list := tc index
  let count := if list.maxSize > maxBlockNum then maxBlockNum else list.maxSize
  let a ← cc.pageCache.heap s
  let (a, objects) ← CentralCache.fetchLoop count a []
  let list := (objects.foldl FreeList.pushFront list).setMaxSize (count + 1)
  let (object, list) ← list.popFront
  some
    { centralCache := cc.setSpan s a
      thread := some { cache := Function.update tc index list, task := .idle }
      block := some (object, size) }

/-- One step.  `system` is the region that the system returns if it is asked. -/
def advance (th : Thread) (cc : CentralCache) (system : Addr) : Option Turn :=
  let tc := th.cache
  match th.task with
  | .idle => none
  | .fetchRange size => do
    let found ← CentralCache.findFree cc.pageCache.heap (cc.spans (Task.listOf size))
    match found with
    | some s => takeBlocks cc tc size s
    | none =>
      some
        { centralCache := cc
          thread := some { cache := tc, task := .fetchSpan size }
          block := none }
  | .fetchSpan size => do
    let pages := CentralCache.pageCountFor (Size.roundUp size)
    let (pageCache, span) ← cc.pageCache.fetchSpan pages (some system)
    let s ← span
    some
      { centralCache := { cc with pageCache := pageCache }
        thread := some { cache := tc, task := .carve size s }
        block := none }
  | .carve size s => do
    let a ← cc.pageCache.heap s
    some
      { centralCache := cc.setSpan s (CentralCache.carve a (Size.roundUp size))
        thread := some { cache := tc, task := .pushSpan size s }
        block := none }
  | .pushSpan size s =>
    let index := Task.listOf size
    let cc := { cc with spans := Function.update cc.spans index (s :: cc.spans index) }
    takeBlocks cc tc size s
  | .returnRange index objects after => returnLoop cc tc index objects after
  | .objectToSpan index object rest after => do
    let span ← cc.pageCache.objectToSpan object
    some
      { centralCache := cc
        thread := some { cache := tc, task := .returnObject index object span rest after }
        block := none }
  | .returnObject index object span rest after =>
    match span with
    | none => returnLoop cc tc index rest after
    | some s => do
      let a ← cc.pageCache.heap s
      let a := { a with
        freeList := a.freeList.pushFront object
        used := (a.used + 2 ^ 64 - 1) % 2 ^ 64 }
      if a.used = 0 then do
        let list ← eraseSpan (cc.spans index) s
        let cc := { cc with spans := Function.update cc.spans index list }
        some
          { centralCache := cc.setSpan s { a with freeList := a.freeList.clear }
            thread := some { cache := tc, task := .returnSpan index s rest after }
            block := none }
      else returnLoop (cc.setSpan s a) tc index rest after
  | .returnSpan index s rest after => do
    let pageCache ← cc.pageCache.returnSpan s
    some
      { centralCache := { cc with pageCache := pageCache }
        thread := some { cache := tc, task := .returnRange index rest after }
        block := none }

/-- `allocate`, up to its first lock: the thread, and the block that its cache has. -/
def allocate (th : Thread) (size : Nat) : Option (Thread × Option (Addr × Nat)) :=
  if size = 0 then some (th, none)
  else if size > maxMemorySize then some (th, none)
  else
    let index := Task.listOf size
    if (th.cache index).chain.isEmpty then some ({ th with task := .fetchRange size }, none)
    else do
      let (object, list) ← (th.cache index).popFront
      some ({ th with cache := Function.update th.cache index list }, some (object, size))

/-- `deallocate`, up to its first lock. -/
def deallocate (th : Thread) (p : Addr) (size : Nat) : Option Thread :=
  if size = 0 then some th
  else if size > maxMemorySize then some th
  else
    let index := Task.listOf size
    let tc : ThreadCache := Function.update th.cache index ((th.cache index).pushFront p)
    if tc.shouldReturn index then do
      let (list, head) ← ThreadCache.takeLoop (tc index).maxSize (tc index) []
      some
        { cache := Function.update tc index list
          task := .returnRange (Size.sizeToIndex (Size.indexToSize index)) head .idle }
    else some { th with cache := tc }

end Thread

/-! ## The pool -/

/-- The caches, the threads, who holds each lock, and the blocks that are live. -/
structure ConcurrentPool where
  centralCache : CentralCache
  threads : Nat → Option Thread
  owner : Lock → Option Nat
  live : List (Addr × Nat)

inductive PoolEvent
  /-- a thread comes -/
  | create (thread : Nat)
  /-- it calls `allocate` -/
  | allocate (thread size : Nat)
  /-- it calls `deallocate` -/
  | deallocate (thread : Nat) (p : Addr) (size : Nat)
  /-- it ends, and the destructor of its cache runs -/
  | exit (thread : Nat)
  /-- it takes the lock that it waits for -/
  | lock (thread : Nat)
  /-- it takes its next step, and unlocks -/
  | advance (thread : Nat) (system : Addr)
deriving DecidableEq, Repr

namespace PoolEvent

def thread : PoolEvent → Nat
  | .create thread => thread
  | .allocate thread _ => thread
  | .deallocate thread _ _ => thread
  | .exit thread => thread
  | .lock thread => thread
  | .advance thread _ => thread

end PoolEvent

namespace ConcurrentPool

def init : ConcurrentPool where
  centralCache := CentralCache.init
  threads := fun _ => none
  owner := fun _ => none
  live := []

def setThread (cp : ConcurrentPool) (thread : Nat) (th : Option Thread) : ConcurrentPool :=
  { cp with threads := Function.update cp.threads thread th }

def step (cp : ConcurrentPool) : PoolEvent → Option ConcurrentPool
  | .create thread => some (cp.setThread thread (some { cache := ThreadCache.init, task := .idle }))
  | .allocate thread size => do
    let th ← cp.threads thread
    let (th, block) ← th.allocate size
    some { cp.setThread thread (some th) with live := block.toList ++ cp.live }
  | .deallocate thread p size => do
    let th ← cp.threads thread
    let th ← th.deallocate p size
    some { cp.setThread thread (some th) with live := cp.live.erase (p, size) }
  | .exit thread => do
    let th ← cp.threads thread
    let th ← Thread.drain (List.range maxArraySize) th.cache
    some (cp.setThread thread th)
  | .lock thread => do
    let th ← cp.threads thread
    let l ← th.task.lock
    some { cp with owner := Function.update cp.owner l (some thread) }
  | .advance thread system => do
    let th ← cp.threads thread
    let turn ← th.advance cp.centralCache system
    some
      { centralCache := turn.centralCache
        threads := Function.update cp.threads thread turn.thread
        owner := Mutex.release cp.owner th.task.lock
        live := turn.block.toList ++ cp.live }

end ConcurrentPool

end Pool

end WWRaftKV
