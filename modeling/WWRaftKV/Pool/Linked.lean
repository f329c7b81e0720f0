/-
The pool with its pointers.

A free block holds the link of its `FreeObject` in its first word, and the caller of
`allocate` may write every word of a live block.  A `SpanList` is a ring of spans through a
head of its own.  The other fields of a `Span` are apart from its two links, and both are
gone when the span has been deleted.

`none` is undefined behaviour: a null pointer or a deleted span is read or written, or a
loop leads past the number of rounds that its caller has counted.
-/
import WWRaftKV.General.Ring
import WWRaftKV.Pool.Accounts

namespace WWRaftKV

namespace Pool

/-- The words of memory, of eight bytes. -/
abbrev Words := Nat → Addr

/-- The word in which the link of an object lies. -/
def slot (x : Addr) : Nat := x / 8

def nullptr : Addr := 0

/-! ## Free lists -/

/-- A `FreeList`: `front` is the link of `_Head`. -/
structure LinkedList where
  front : Addr
  size : Nat
  maxSize : Nat
deriving DecidableEq, Repr

namespace LinkedList

def new : LinkedList := { front := nullptr, size := 0, maxSize := 1 }

def empty (l : LinkedList) : Bool := l.front = nullptr

def pushFront (w : Words) (l : LinkedList) (object : Addr) : Words × LinkedList :=
  (Function.update w (slot object) l.front,
    { l with front := object, size := (l.size + 1) % 2 ^ 64 })

/-- `front` and `pop_front`. -/
def popFront (w : Words) (l : LinkedList) : Option (Addr × LinkedList) :=
  if l.empty then none
  else some (l.front, { l with
    front := w (slot l.front)
    size := (l.size + 2 ^ 64 - 1) % 2 ^ 64 })

def setMaxSize (l : LinkedList) (maxSize : Nat) : LinkedList := { l with maxSize := maxSize }

def clear (_ : LinkedList) : LinkedList := new

end LinkedList

/-! ## Spans and span lists -/

structure LinkedSpan where
  pageId : Nat
  pageCount : Nat
  used : Nat
  freeList : LinkedList
deriving DecidableEq, Repr

namespace LinkedSpan

def new : LinkedSpan where
  pageId := 0
  pageCount := 0
  used := 0
  freeList := LinkedList.new

/-- The pages of the span. -/
def pages (a : LinkedSpan) : Span := { Span.new with pageId := a.pageId, pageCount := a.pageCount }

end LinkedSpan

/-- The lists of the page cache and of the central cache. -/
inductive SpanListId
  | page (index : Nat)
  | central (index : Nat)
deriving DecidableEq, Repr

/-- `_Head` of a list, or a span object. -/
inductive Node
  | head (l : SpanListId)
  | span (s : SpanId)
deriving DecidableEq, Repr

/-- The memory, the page cache and the central cache. -/
structure Memory where
  words : Words
  nodes : Nodes Node
  heap : SpanId → Option LinkedSpan
  nextSpan : Nat
  freeSpanMap : SpanMap
  busySpanMap : SpanMap
  alignPointers : List Addr

namespace Memory

/-- The heads of the lists are their own neighbours.  The words hold anything. -/
def init (words : Words) : Memory where
  words := words
  nodes := fun n =>
    match n with
    | .head _ => some { prev := some n, next := some n }
    | .span _ => none
  heap := fun _ => none
  nextSpan := 0
  freeSpanMap := fun _ => none
  busySpanMap := fun _ => none
  alignPointers := []

/-- `empty` of a span list. -/
def empty (m : Memory) (l : SpanListId) : Bool := m.nodes.next (.head l) = some (.head l)

/-- `front` of a span list. -/
def front (m : Memory) (l : SpanListId) : Option SpanId :=
  match m.nodes.next (.head l) with
  | some (.span s) => some s
  | _ => none

def pushFront (m : Memory) (l : SpanListId) (s : SpanId) : Option Memory := do
  let nodes ← m.nodes.pushFront (.head l) (.span s)
  some { m with nodes := nodes }

def popFront (m : Memory) (l : SpanListId) : Option Memory := do
  let nodes ← m.nodes.popFront (.head l)
  some { m with nodes := nodes }

/-- `erase` of a span list, which does not read the list. -/
def erase (m : Memory) (s : SpanId) : Option Memory := do
  let nodes ← m.nodes.erase (.span s)
  some { m with nodes := nodes }

def setSpan (m : Memory) (s : SpanId) (a : LinkedSpan) : Memory :=
  { m with heap := Function.update m.heap s (some a) }

/-- `new Span()`. -/
def newSpan (m : Memory) : Memory × SpanId :=
  ({ m with
    nodes := Function.update m.nodes (.span m.nextSpan) (some { prev := none, next := none })
    heap := Function.update m.heap m.nextSpan (some LinkedSpan.new)
    nextSpan := m.nextSpan + 1 }, m.nextSpan)

/-- `delete`. -/
def deleteSpan (m : Memory) (s : SpanId) : Memory :=
  { m with
    nodes := Function.update m.nodes (.span s) none
    heap := Function.update m.heap s none }

/-! ## The page cache -/

/-- A free span of exactly the right length. -/
def fetchExact (m : Memory) (pages : Nat) : Option (Memory × Option SpanId) := do
  let s ← m.front (.page (pages - 1))
  let m ← m.popFront (.page (pages - 1))
  let a ← m.heap s
  some ({ m with
    freeSpanMap := m.freeSpanMap.eraseEnds a.pages
    busySpanMap := m.busySpanMap.setEnds a.pages s }, some s)

/-- A longer free span, with `i + 1` pages, is cut. -/
def fetchSplit (m : Memory) (pages i : Nat) : Option (Memory × Option SpanId) := do
  let bigger ← m.front (.page i)
  let m ← m.popFront (.page i)
  let (m, split) := m.newSpan
  let a ← m.heap bigger
  let back := { LinkedSpan.new with pageId := a.pageId + i + 1 - pages, pageCount := pages }
  let front := { a with pageCount := i + 1 - pages }
  let m := (m.setSpan split back).setSpan bigger front
  let m ← m.pushFront (.page (front.pageCount - 1)) bigger
  let free := Function.update m.freeSpanMap
    (front.pageId + front.pageCount + back.pageCount - 1) none
  some ({ m with
    freeSpanMap := Function.update free (front.pageId + front.pageCount - 1) (some bigger)
    busySpanMap := m.busySpanMap.setEnds back.pages split }, some split)

/-- A new region of the system. -/
def fetchSystem (m : Memory) (pages : Nat) (p : Addr) : Option (Memory × Option SpanId) :=
  let m := { m with alignPointers := m.alignPointers ++ [p] }
  let (m, maxSpan) := m.newSpan
  if pages = maxPageNum then
    let whole := { LinkedSpan.new with pageId := Span.ptrToId p, pageCount := maxPageNum }
    let m := m.setSpan maxSpan whole
    some ({ m with busySpanMap := m.busySpanMap.setEnds whole.pages maxSpan }, some maxSpan)
  else do
    let front := { LinkedSpan.new with
      pageId := Span.ptrToId p
      pageCount := maxPageNum - pages }
    let m := m.setSpan maxSpan front
    let (m, split) := m.newSpan
    let back := { LinkedSpan.new with
      pageId := front.pageId + maxPageNum - pages
      pageCount := pages }
    let m := m.setSpan split back
    let m ← m.pushFront (.page (front.pageCount - 1)) maxSpan
    some ({ m with
      freeSpanMap := m.freeSpanMap.setEnds front.pages maxSpan
      busySpanMap := m.busySpanMap.setEnds back.pages split }, some split)

/-- `fetchSpan`. -/
def fetchSpan (m : Memory) (pages : Nat) (system : Option Addr) :
    Option (Memory × Option SpanId) :=
  if !m.empty (.page (pages - 1)) then m.fetchExact pages
  else
    match (List.range' pages (maxPageNum - pages)).find? fun i => !m.empty (.page i) with
    | some i => m.fetchSplit pages i
    | none =>
      match system with
      | none => some (m, none)
      | some p => m.fetchSystem pages p

/-- The loops of `returnSpan`. -/
def mergeLoop (key : LinkedSpan → Nat) (joined : LinkedSpan → LinkedSpan → LinkedSpan)
    (s : SpanId) : Nat → Memory → Option Memory
  | 0, _ => none
  | rounds + 1, m => do
    let a ← m.heap s
    match m.freeSpanMap (key a) with
    | none => some m
    | some t => do
      let b ← m.heap t
      if a.pageCount + b.pageCount > maxPageNum then some m
      else do
        let m ← m.erase t
        let m := { m with freeSpanMap := m.freeSpanMap.eraseEnds b.pages }
        let m := m.setSpan s (joined a b)
        mergeLoop key joined s rounds (m.deleteSpan t)

def mergePrev : SpanId → Nat → Memory → Option Memory :=
  mergeLoop (fun a => (a.pageId + 2 ^ 64 - 1) % 2 ^ 64) fun a b =>
    { a with pageId := b.pageId, pageCount := b.pageCount + a.pageCount }

def mergeNext : SpanId → Nat → Memory → Option Memory :=
  mergeLoop (fun a => a.pageId + a.pageCount) fun a b =>
    { a with pageCount := b.pageCount + a.pageCount }

/-- `returnSpan`. -/
def returnSpan (m : Memory) (s : SpanId) : Option Memory := do
  let a ← m.heap s
  let m := { m with busySpanMap := m.busySpanMap.eraseEnds a.pages }
  let m ← mergePrev s maxPageNum m
  let m ← mergeNext s maxPageNum m
  let a ← m.heap s
  let m := { m with freeSpanMap := m.freeSpanMap.setEnds a.pages s }
  m.pushFront (.page (a.pageCount - 1)) s

/-- `objectToSpan`. -/
def objectToSpan (m : Memory) (p : Addr) : Option (Option SpanId) :=
  let page := Span.ptrToId p
  match m.busySpanMap (Nat.findGreatest (fun k => (m.busySpanMap k).isSome = true) page) with
  | none => some none
  | some s => do
    let a ← m.heap s
    if page ≥ a.pageId + a.pageCount then some none else some (some s)

/-! ## The central cache -/

/-- The loop over the spans of a list, from the node `n` on. -/
def findFree (m : Memory) (l : SpanListId) : Nat → Node → Option (Option SpanId)
  | 0, _ => none
  | rounds + 1, n =>
    if n = .head l then some none
    else
      match n with
      | .head _ => none
      | .span s => do
        let a ← m.heap s
        if a.freeList.empty then do
          let n ← m.nodes.next n
          findFree m l rounds n
        else some (some s)

/-- The loop that hangs the blocks on the free list. -/
def carve (w : Words) (a : LinkedSpan) (size : Nat) : Words × LinkedSpan :=
  let r := (CentralCache.blocksOf a.pages size).foldl
    (fun r object => LinkedList.pushFront r.1 r.2 object) (w, a.freeList)
  (r.1, { a with freeList := r.2 })

/-- `_GetFreeSpan`.  A list has no more spans than there have been. -/
def getFreeSpan (m : Memory) (size : Nat) (system : Option Addr) :
    Option (Memory × Option SpanId) := do
  let index := Size.sizeToIndex size
  let begin ← m.nodes.next (.head (.central index))
  let found ← m.findFree (.central index) (m.nextSpan + 1) begin
  match found with
  | some s => some (m, some s)
  | none => do
    let (m, span) ← m.fetchSpan (CentralCache.pageCountFor size) system
    match span with
    | none => some (m, none)
    | some s => do
      let a ← m.heap s
      let (words, a) := carve m.words a size
      let m := { m with words := words }.setSpan s a
      let m ← m.pushFront (.central index) s
      some (m, some s)

/-- The loop of `fetchRange`: the span, and the list of the blocks taken so far. -/
def fetchLoop : Nat → Words → LinkedSpan → Addr → Option (Words × LinkedSpan × Addr)
  | 0, w, a, head => some (w, a, head)
  | count + 1, w, a, head => do
    let (object, freeList) ← a.freeList.popFront w
    let w := Function.update w (slot object) head
    let a := { a with freeList := freeList, used := a.used + 1 }
    if a.freeList.empty then some (w, a, object) else fetchLoop count w a object

/-- `fetchRange`, as far as a span is found. -/
def fetchRange (m : Memory) (size count : Nat) (system : Option Addr) :
    Option (Memory × Addr) := do
  let (m, span) ← m.getFreeSpan size system
  match span with
  | none => none
  | some s => do
    let a ← m.heap s
    let (words, a, head) ← fetchLoop count m.words a nullptr
    some ({ m with words := words }.setSpan s a, head)

/-- One block of `returnRange`. -/
def returnObject (m : Memory) (object : Addr) : Option Memory := do
  let span ← m.objectToSpan object
  match span with
  | none => some m
  | some s => do
    let a ← m.heap s
    let (words, freeList) := a.freeList.pushFront m.words object
    let m := { m with words := words }
    let a := { a with freeList := freeList, used := (a.used + 2 ^ 64 - 1) % 2 ^ 64 }
    if a.used = 0 then do
      let m ← m.erase s
      let m := m.setSpan s { a with freeList := a.freeList.clear }
      m.returnSpan s
    else some (m.setSpan s a)

/-- `returnRange`: the link is read before the block is pushed. -/
def returnRange : Nat → Memory → Addr → Option Memory
  | 0, _, _ => none
  | rounds + 1, m, object =>
    if object = nullptr then some m
    else do
      let next := m.words (slot object)
      let m ← m.returnObject object
      returnRange rounds m next

end Memory

/-! ## Thread caches -/

/-- `_Free_lists`. -/
abbrev LinkedCache := Nat → LinkedList

namespace LinkedCache

def init : LinkedCache := fun _ => LinkedList.new

/-- The loop of `_FetchFromCentralCache`. -/
def pushAll : Nat → Words → LinkedList → Addr → Option (Words × LinkedList)
  | 0, _, _, _ => none
  | rounds + 1, w, list, cur =>
    if cur = nullptr then some (w, list)
    else
      let next := w (slot cur)
      let (w, list) := list.pushFront w cur
      pushAll rounds w list next

/-- `_FetchFromCentralCache`.  No more than `count` blocks come back. -/
def fetchFromCentralCache (tc : LinkedCache) (m : Memory) (size : Nat)
    (system : Option Addr) : Option (Memory × LinkedCache) := do
  let index := Size.sizeToIndex size
  let list := tc index
  let count := if list.maxSize > maxBlockNum then maxBlockNum else list.maxSize
  let (m, object) ← m.fetchRange size count system
  let (words, list) ← pushAll (count + 1) m.words list object
  some ({ m with words := words }, Function.update tc index (list.setMaxSize (count + 1)))

/-- The loop of `_ReturnToCentralCache`. -/
def takeLoop : Nat → Words → LinkedList → Addr → Option (Words × LinkedList × Addr)
  | 0, w, list, head => some (w, list, head)
  | nums + 1, w, list, head => do
    let (object, list) ← list.popFront w
    takeLoop nums (Function.update w (slot object) head) list object

/-- `_ReturnToCentralCache`. -/
def returnToCentralCache (tc : LinkedCache) (m : Memory) (index nums : Nat) :
    Option (Memory × LinkedCache) := do
  let (words, list, head) ← takeLoop nums m.words (tc index) nullptr
  let m ← Memory.returnRange (nums + 1) { m with words := words } head
  some (m, Function.update tc index list)

/-- `_ShouldReturn`. -/
def shouldReturn (tc : LinkedCache) (index : Nat) : Bool :=
  (tc index).size ≥ (tc index).maxSize * 2

/-- `allocate`. -/
def allocate (tc : LinkedCache) (m : Memory) (size : Nat) (system : Option Addr) :
    Option (Memory × LinkedCache × ThreadCache.Allocation) :=
  if size = 0 then some (m, tc, .nullptr)
  else if size > maxMemorySize then some (m, tc, .heap)
  else do
    let roundSize := Size.roundUp size
    let index := Size.sizeToIndex roundSize
    let (m, tc) ← if (tc index).empty then tc.fetchFromCentralCache m roundSize system
      else some (m, tc)
    let (object, list) ← (tc index).popFront m.words
    some (m, Function.update tc index list, .block object)

/-- `deallocate`. -/
def deallocate (tc : LinkedCache) (m : Memory) (p : Addr) (size : Nat) :
    Option (Memory × LinkedCache) :=
  if size = 0 then some (m, tc)
  else if size > maxMemorySize then some (m, tc)
  else
    let index := Size.sizeToIndex (Size.roundUp size)
    let (words, list) := (tc index).pushFront m.words p
    let m := { m with words := words }
    let tc : LinkedCache := Function.update tc index list
    if tc.shouldReturn index then tc.returnToCentralCache m index (tc index).maxSize
    else some (m, tc)

/-- The loop of the destructor. -/
def drainLoop : List Nat → LinkedCache → Memory → Option Memory
  | [], _, m => some m
  | index :: rest, tc, m =>
    if (tc index).empty then drainLoop rest tc m
    else do
      let (m, tc) ← tc.returnToCentralCache m index (tc index).size
      drainLoop rest tc m

/-- `~ThreadCache`. -/
def destroy (tc : LinkedCache) (m : Memory) : Option Memory :=
  drainLoop (List.range maxArraySize) tc m

end LinkedCache

/-! ## The pool -/

/-- The caches of all threads, and the live blocks with their sizes. -/
structure LinkedPool where
  memory : Memory
  threadCaches : Nat → Option LinkedCache
  live : List (Addr × Nat)

inductive LinkedOp
  /-- an operation of the pool -/
  | pool (op : PoolOp)
  /-- the caller writes a word of a live block -/
  | write (p : Addr) (size word : Nat) (value : Addr)
deriving DecidableEq, Repr

/-- The operation of the pool, if it is one. -/
def LinkedOp.pool? : LinkedOp → Option PoolOp
  | .pool op => some op
  | .write .. => none

namespace LinkedPool

def init (words : Words) : LinkedPool where
  memory := Memory.init words
  threadCaches := fun _ => none
  live := []

/-- An operation of the pool. -/
def stepPool (lp : LinkedPool) : PoolOp → Option LinkedPool
  | .create thread =>
    some { lp with threadCaches := Function.update lp.threadCaches thread (some LinkedCache.init) }
  | .allocate thread size system => do
    let tc ← lp.threadCaches thread
    let (m, tc, result) ← tc.allocate lp.memory size (some system)
    let live := match result with
      | .block p => (p, size) :: lp.live
      | _ => lp.live
    some
      { memory := m
        threadCaches := Function.update lp.threadCaches thread (some tc)
        live := live }
  | .deallocate thread p size => do
    let tc ← lp.threadCaches thread
    let (m, tc) ← tc.deallocate lp.memory p size
    some
      { memory := m
        threadCaches := Function.update lp.threadCaches thread (some tc)
        live := lp.live.erase (p, size) }
  | .destroy thread => do
    let tc ← lp.threadCaches thread
    let m ← tc.destroy lp.memory
    some { lp with
      memory := m
      threadCaches := Function.update lp.threadCaches thread none }

def step (lp : LinkedPool) : LinkedOp → Option LinkedPool
  | .pool op => lp.stepPool op
  | .write _ _ word value =>
    some { lp with memory :=
      { lp.memory with words := Function.update lp.memory.words word value } }

/-- A word of a block that was allocated for `size` bytes. -/
def Owns (p : Addr) (size word : Nat) : Prop := slot p ≤ word ∧ word * 8 < p + size

instance (p : Addr) (size word : Nat) : Decidable (Owns p size word) :=
  inferInstanceAs (Decidable (_ ∧ _))

/-- What the callers and the system keep to. -/
def Ok (lp : LinkedPool) : LinkedOp → Prop
  | .pool (.create thread) => (lp.threadCaches thread).isNone
  | .pool (.allocate thread size system) =>
    (lp.threadCaches thread).isSome ∧ 1 ≤ size ∧ size ≤ maxMemorySize ∧
      PageCache.FreshRegion { PageCache.init with alignPointers := lp.memory.alignPointers } system
  | .pool (.deallocate thread p size) => (lp.threadCaches thread).isSome ∧ (p, size) ∈ lp.live
  | .pool (.destroy thread) => (lp.threadCaches thread).isSome
  | .write p size word _ => (p, size) ∈ lp.live ∧ Owns p size word

instance (lp : LinkedPool) : (op : LinkedOp) → Decidable (lp.Ok op)
  | .pool (.create thread) => inferInstanceAs (Decidable ((lp.threadCaches thread).isNone = true))
  | .pool (.allocate thread size system) => inferInstanceAs (Decidable (
      (lp.threadCaches thread).isSome = true ∧ 1 ≤ size ∧ size ≤ maxMemorySize ∧
        PageCache.FreshRegion { PageCache.init with alignPointers := lp.memory.alignPointers }
          system))
  | .pool (.deallocate thread p size) =>
    inferInstanceAs (Decidable ((lp.threadCaches thread).isSome = true ∧ (p, size) ∈ lp.live))
  | .pool (.destroy thread) => inferInstanceAs (Decidable ((lp.threadCaches thread).isSome = true))
  | .write p size word _ => inferInstanceAs (Decidable ((p, size) ∈ lp.live ∧ Owns p size word))

end LinkedPool

end Pool

end WWRaftKV
