/-
The central cache and the thread caches over it.

The central cache keeps the spans that it has cut into blocks, one list for each size
class.  A thread cache keeps free blocks of its own.  The link of a free block lies in the
block: a `FreeObject *` is the list of the blocks that follow it.

`none` is undefined behaviour, as in the page cache: a deleted span is read, a span is
erased from a list that it is not in, or the front of an empty list is taken.
-/
import WWRaftKV.Pool.Size

namespace WWRaftKV

namespace Pool

/-! ## The central cache -/

/-- `_Spans` of the central cache, and the page cache that it calls. -/
structure CentralCache where
  pageCache : PageCache
  spans : Nat → List SpanId

namespace CentralCache

def init : CentralCache where
  pageCache := PageCache.init
  spans := fun _ => []

/-- A span object is written. -/
def setSpan (cc : CentralCache) (s : SpanId) (a : Span) : CentralCache :=
  { cc with pageCache :=
    { cc.pageCache with heap := Function.update cc.pageCache.heap s (some a) } }

/-- The first span of the list that has a free block. -/
def findFree (heap : SpanId → Option Span) : List SpanId → Option (Option SpanId)
  | [] => some none
  | s :: rest => do
    let a ← heap s
    if a.freeList.chain.isEmpty then findFree heap rest else some (some s)

/-- How many pages are asked for, for blocks of this size. -/
def pageCountFor (size : Nat) : Nat :=
  let total := size * maxBlockNum
  let count := if total % pageSize ≠ 0 then total / pageSize + 1 else total / pageSize
  if count > maxPageNum then maxPageNum else count

/-- The blocks of a span, in the order of their addresses. -/
def blocksOf (a : Span) (size : Nat) : List Addr :=
  (List.range (a.pageCount * pageSize / size)).map fun i => Span.idToPtr a.pageId + i * size

/-- The loop that hangs the blocks on the free list. -/
def carve (a : Span) (size : Nat) : Span :=
  { a with freeList := (blocksOf a size).foldl FreeList.pushFront a.freeList }

/-- `_GetFreeSpan`. -/
def getFreeSpan (cc : CentralCache) (size : Nat) (system : Option Addr) :
    Option (CentralCache × Option SpanId) := do
  let index := Size.sizeToIndex size
  let found ← findFree cc.pageCache.heap (cc.spans index)
  match found with
  | some s => some (cc, some s)
  | none => do
    let (pageCache, span) ← cc.pageCache.fetchSpan (pageCountFor size) system
    let cc := { cc with pageCache := pageCache }
    match span with
    | none => some (cc, none)
    | some s => do
      let a ← pageCache.heap s
      let cc := cc.setSpan s (carve a size)
      some ({ cc with spans := Function.update cc.spans index (s :: cc.spans index) }, some s)

/-- The loop of `fetchRange`: the span, and the blocks taken so far. -/
def fetchLoop : Nat → Span → List Addr → Option (Span × List Addr)
  | 0, a, head => some (a, head)
  | count + 1, a, head => do
    let (object, freeList) ← a.freeList.popFront
    let a := { a with freeList := freeList, used := a.used + 1 }
    let head := object :: head
    if a.freeList.chain.isEmpty then some (a, head) else fetchLoop count a head

/-- `fetchRange`.  Without a span the source also unlocks a mutex that it does not hold. -/
def fetchRange (cc : CentralCache) (size count : Nat) (system : Option Addr) :
    Option (CentralCache × List Addr) := do
  let (cc, span) ← cc.getFreeSpan size system
  match span with
  | none => none
  | some s => do
    let a ← cc.pageCache.heap s
    let (a, head) ← fetchLoop count a []
    some (cc.setSpan s a, head)

/-- One block of `returnRange`. -/
def returnObject (cc : CentralCache) (index : Nat) (object : Addr) : Option CentralCache := do
  let span ← cc.pageCache.objectToSpan object
  match span with
  | none => some cc
  | some s => do
    let a ← cc.pageCache.heap s
    let a := { a with
      freeList := a.freeList.pushFront object
      used := (a.used + 2 ^ 64 - 1) % 2 ^ 64 }
    if a.used = 0 then do
      let list ← eraseSpan (cc.spans index) s
      let cc := { cc with spans := Function.update cc.spans index list }
      let cc := cc.setSpan s { a with freeList := a.freeList.clear }
      let pageCache ← cc.pageCache.returnSpan s
      some { cc with pageCache := pageCache }
    else some (cc.setSpan s a)

/-- `returnRange`. -/
def returnRange (cc : CentralCache) (size : Nat) : List Addr → Option CentralCache
  | [] => some cc
  | object :: rest => do
    let cc ← cc.returnObject (Size.sizeToIndex size) object
    cc.returnRange size rest

end CentralCache

/-! ## Thread caches -/

/-- `_Free_lists`. -/
abbrev ThreadCache := Nat → FreeList

namespace ThreadCache

def init : ThreadCache := fun _ => FreeList.new

/-- `_FetchFromCentralCache`. -/
def fetchFromCentralCache (tc : ThreadCache) (cc : CentralCache) (size : Nat)
    (system : Option Addr) : Option (CentralCache × ThreadCache) := do
  let index := Size.sizeToIndex size
  let list := tc index
  let count := if list.maxSize > maxBlockNum then maxBlockNum else list.maxSize
  let (cc, objects) ← cc.fetchRange size count system
  let list := objects.foldl FreeList.pushFront list
  some (cc, Function.update tc index (list.setMaxSize (count + 1)))

/-- `nums` blocks off the front of a free list, put before `head` one by one. -/
def takeLoop : Nat → FreeList → List Addr → Option (FreeList × List Addr)
  | 0, list, head => some (list, head)
  | nums + 1, list, head => do
    let (object, list) ← list.popFront
    takeLoop nums list (object :: head)

/-- `_ReturnToCentralCache`. -/
def returnToCentralCache (tc : ThreadCache) (cc : CentralCache) (index nums : Nat) :
    Option (CentralCache × ThreadCache) := do
  let (list, head) ← takeLoop nums (tc index) []
  let cc ← cc.returnRange (Size.indexToSize index) head
  some (cc, Function.update tc index list)

/-- `_ShouldReturn`. -/
def shouldReturn (tc : ThreadCache) (index : Nat) : Bool :=
  (tc index).size ≥ (tc index).maxSize * 2

/-- What `allocate` returns: nothing, memory of the heap, or a block. -/
inductive Allocation
  | nullptr
  | heap
  | block (p : Addr)
deriving DecidableEq, Repr

/-- `allocate`. -/
def allocate (tc : ThreadCache) (cc : CentralCache) (size : Nat) (system : Option Addr) :
    Option (CentralCache × ThreadCache × Allocation) :=
  if size = 0 then some (cc, tc, .nullptr)
  else if size > maxMemorySize then some (cc, tc, .heap)
  else do
    let roundSize := Size.roundUp size
    let index := Size.sizeToIndex roundSize
    let (cc, tc) ← if (tc index).chain.isEmpty then
        tc.fetchFromCentralCache cc roundSize system
      else some (cc, tc)
    let (object, list) ← (tc index).popFront
    some (cc, Function.update tc index list, .block object)

/-- `deallocate`.  A size above the limit goes back to the heap. -/
def deallocate (tc : ThreadCache) (cc : CentralCache) (p : Addr) (size : Nat) :
    Option (CentralCache × ThreadCache) :=
  if size = 0 then some (cc, tc)
  else if size > maxMemorySize then some (cc, tc)
  else
    let index := Size.sizeToIndex (Size.roundUp size)
    let tc : ThreadCache := Function.update tc index ((tc index).pushFront p)
    if tc.shouldReturn index then tc.returnToCentralCache cc index (tc index).maxSize
    else some (cc, tc)

/-- The loop of the destructor, from the list `index` on. -/
def drainLoop : List Nat → ThreadCache → CentralCache → Option CentralCache
  | [], _, cc => some cc
  | index :: rest, tc, cc =>
    if (tc index).chain.isEmpty then drainLoop rest tc cc
    else do
      let (cc, tc) ← tc.returnToCentralCache cc index (tc index).size
      drainLoop rest tc cc

/-- `~ThreadCache`. -/
def destroy (tc : ThreadCache) (cc : CentralCache) : Option CentralCache :=
  drainLoop (List.range maxArraySize) tc cc

end ThreadCache

/-! ## The pool -/

/-- The caches of all threads, and the blocks that are live with the sizes that they were
allocated for. -/
structure MemoryPool where
  centralCache : CentralCache
  threadCaches : Nat → Option ThreadCache
  live : List (Addr × Nat)

inductive PoolOp
  /-- a thread comes, and its cache with it -/
  | create (thread : Nat)
  /-- `system` is the region that the system returns if it is asked -/
  | allocate (thread : Nat) (size : Nat) (system : Addr)
  | deallocate (thread : Nat) (p : Addr) (size : Nat)
  /-- a thread ends -/
  | destroy (thread : Nat)
deriving DecidableEq, Repr

namespace MemoryPool

def init : MemoryPool where
  centralCache := CentralCache.init
  threadCaches := fun _ => none
  live := []

def step (mp : MemoryPool) : PoolOp → Option MemoryPool
  | .create thread =>
    some { mp with threadCaches := Function.update mp.threadCaches thread (some ThreadCache.init) }
  | .allocate thread size system => do
    let tc ← mp.threadCaches thread
    let (cc, tc, result) ← tc.allocate mp.centralCache size (some system)
    let live := match result with
      | .block p => (p, size) :: mp.live
      | _ => mp.live
    some
      { centralCache := cc
        threadCaches := Function.update mp.threadCaches thread (some tc)
        live := live }
  | .deallocate thread p size => do
    let tc ← mp.threadCaches thread
    let (cc, tc) ← tc.deallocate mp.centralCache p size
    some
      { centralCache := cc
        threadCaches := Function.update mp.threadCaches thread (some tc)
        live := mp.live.erase (p, size) }
  | .destroy thread => do
    let tc ← mp.threadCaches thread
    let cc ← tc.destroy mp.centralCache
    some { mp with
      centralCache := cc
      threadCaches := Function.update mp.threadCaches thread none }

end MemoryPool

end Pool

end WWRaftKV
