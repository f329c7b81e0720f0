/-
The page cache: spans of pages, and the two maps that find them.

A `Span` object is an entry of `heap`, and `new Span()` takes the next name.  A `SpanList`
is the list of its spans, and a `FreeList` that of its blocks: `_Size` is the length of the
chain, which every operation changes along with it.  `none` is the undefined behaviour of
the source: a span that has been deleted is read, or one is taken out of a list that it is
not in.

A page number is below `2 ^ 52`, so that sums of page numbers and counts do not wrap.
-/
import Mathlib.Algebra.Group.Nat.Defs
import Mathlib.Data.List.Range
import Mathlib.Data.Nat.Find
import WWRaftKV.General.Tiling

namespace WWRaftKV

namespace Pool

abbrev Addr := Nat

abbrev SpanId := Nat

/-! ## Constants -/

def pageSize : Nat := 4096

def pageShift : Nat := 12

def maxPageNum : Nat := 128

def maxArraySize : Nat := 208

def maxMemorySize : Nat := pageSize * maxPageNum / 2

def maxBlockNum : Nat := 512

/-! ## Free lists -/

structure FreeList where
  chain : List Addr
  maxSize : Nat
deriving DecidableEq, Repr

namespace FreeList

def new : FreeList := { chain := [], maxSize := 1 }

def size (l : FreeList) : Nat := l.chain.length

def pushFront (l : FreeList) (object : Addr) : FreeList :=
  { l with chain := object :: l.chain }

/-- `front` and `pop_front`, which every caller calls together. -/
def popFront (l : FreeList) : Option (Addr × FreeList) :=
  match l.chain with
  | [] => none
  | object :: rest => some (object, { l with chain := rest })

def setMaxSize (l : FreeList) (maxSize : Nat) : FreeList := { l with maxSize := maxSize }

/-- `clear`, which also resets `_Max_size`. -/
def clear (_ : FreeList) : FreeList := new

end FreeList

/-! ## Spans -/

structure Span where
  pageId : Nat
  pageCount : Nat
  used : Nat
  freeList : FreeList
deriving DecidableEq, Repr

namespace Span

def new : Span where
  pageId := 0
  pageCount := 0
  used := 0
  freeList := FreeList.new

def ptrToId (p : Addr) : Nat := p >>> pageShift

def idToPtr (id : Nat) : Addr := id <<< pageShift

def extent (a : Span) : Extent where
  start := a.pageId
  len := a.pageCount

end Span

/-- `SpanList::erase`. -/
def eraseSpan (l : List SpanId) (s : SpanId) : Option (List SpanId) :=
  if s ∈ l then some (l.erase s) else none

abbrev SpanMap := Nat → Option SpanId

namespace SpanMap

/-- The span is entered under its first page and its last one. -/
def setEnds (m : SpanMap) (a : Span) (s : SpanId) : SpanMap :=
  Function.update (Function.update m a.pageId (some s)) (a.pageId + a.pageCount - 1) (some s)

def eraseEnds (m : SpanMap) (a : Span) : SpanMap :=
  Function.update (Function.update m a.pageId none) (a.pageId + a.pageCount - 1) none

end SpanMap

/-! ## The page cache -/

structure PageCache where
  heap : SpanId → Option Span
  nextSpan : Nat
  spans : Nat → List SpanId
  freeSpanMap : SpanMap
  busySpanMap : SpanMap
  alignPointers : List Addr

namespace PageCache

def init : PageCache where
  heap := fun _ => none
  nextSpan := 0
  spans := fun _ => []
  freeSpanMap := fun _ => none
  busySpanMap := fun _ => none
  alignPointers := []

/-- `_Spans[i].push_front(_Span)`. -/
def pushSpan (spans : Nat → List SpanId) (i : Nat) (s : SpanId) : Nat → List SpanId :=
  Function.update spans i (s :: spans i)

/-- A free span of exactly the right length. -/
def fetchExact (pc : PageCache) (pages : Nat) (s : SpanId) (rest : List SpanId) :
    Option (PageCache × Option SpanId) := do
  let a ← pc.heap s
  some ({ pc with
    spans := Function.update pc.spans (pages - 1) rest
    freeSpanMap := pc.freeSpanMap.eraseEnds a
    busySpanMap := pc.busySpanMap.setEnds a s }, some s)

/-- A longer free span, with `i + 1` pages, is cut: its front part stays free. -/
def fetchSplit (pc : PageCache) (pages i : Nat) (bigger : SpanId) (rest : List SpanId) :
    Option (PageCache × Option SpanId) := do
  let a ← pc.heap bigger
  let split := pc.nextSpan
  let back := { Span.new with pageId := a.pageId + i + 1 - pages, pageCount := pages }
  let front := { a with pageCount := i + 1 - pages }
  let spans := Function.update pc.spans i rest
  let free := Function.update pc.freeSpanMap
    (front.pageId + front.pageCount + back.pageCount - 1) none
  some ({ pc with
    heap := Function.update (Function.update pc.heap bigger (some front)) split (some back)
    nextSpan := split + 1
    spans := pushSpan spans (front.pageCount - 1) bigger
    freeSpanMap := Function.update free (front.pageId + front.pageCount - 1) (some bigger)
    busySpanMap := pc.busySpanMap.setEnds back split }, some split)

/-- A new region of the system. -/
def fetchSystem (pc : PageCache) (pages : Nat) (p : Addr) : PageCache × Option SpanId :=
  let maxSpan := pc.nextSpan
  if pages = maxPageNum then
    let whole := { Span.new with pageId := Span.ptrToId p, pageCount := maxPageNum }
    ({ pc with
      heap := Function.update pc.heap maxSpan (some whole)
      nextSpan := maxSpan + 1
      busySpanMap := pc.busySpanMap.setEnds whole maxSpan
      alignPointers := pc.alignPointers ++ [p] }, some maxSpan)
  else
    let split := maxSpan + 1
    let front := { Span.new with pageId := Span.ptrToId p, pageCount := maxPageNum - pages }
    let back := { Span.new with
      pageId := front.pageId + maxPageNum - pages
      pageCount := pages }
    ({ heap := Function.update (Function.update pc.heap maxSpan (some front)) split (some back)
       nextSpan := maxSpan + 2
       spans := pushSpan pc.spans (front.pageCount - 1) maxSpan
       freeSpanMap := pc.freeSpanMap.setEnds front maxSpan
       busySpanMap := pc.busySpanMap.setEnds back split
       alignPointers := pc.alignPointers ++ [p] }, some split)

/-- `fetchSpan`.  `system` is what the system returns if it is asked. -/
def fetchSpan (pc : PageCache) (pages : Nat) (system : Option Addr) :
    Option (PageCache × Option SpanId) :=
  match pc.spans (pages - 1) with
  | s :: rest => pc.fetchExact pages s rest
  | [] =>
    match (List.range' pages (maxPageNum - pages)).find? fun i => !(pc.spans i).isEmpty with
    | some i =>
      match pc.spans i with
      | bigger :: rest => pc.fetchSplit pages i bigger rest
      | [] => none
    | none =>
      match system with
      | none => some (pc, none)
      | some p => some (pc.fetchSystem pages p)

/-- The loops of `returnSpan`.  `key` is the page where a free neighbour is looked up, and
`joined` what the span is when it has taken the neighbour in. -/
def mergeLoop (key : Span → Nat) (joined : Span → Span → Span) (s : SpanId) :
    Nat → PageCache → Option PageCache
  | 0, _ => none
  | rounds + 1, pc => do
    let a ← pc.heap s
    match pc.freeSpanMap (key a) with
    | none => some pc
    | some t => do
      let b ← pc.heap t
      if a.pageCount + b.pageCount > maxPageNum then some pc
      else do
        let list ← eraseSpan (pc.spans (b.pageCount - 1)) t
        mergeLoop key joined s rounds { pc with
          heap := Function.update (Function.update pc.heap s (some (joined a b))) t none
          spans := Function.update pc.spans (b.pageCount - 1) list
          freeSpanMap := pc.freeSpanMap.eraseEnds b }

/-- The loop towards lower pages. -/
def mergePrev : SpanId → Nat → PageCache → Option PageCache :=
  mergeLoop (fun a => (a.pageId + 2 ^ 64 - 1) % 2 ^ 64) fun a b =>
    { a with pageId := b.pageId, pageCount := b.pageCount + a.pageCount }

/-- The loop towards higher pages. -/
def mergeNext : SpanId → Nat → PageCache → Option PageCache :=
  mergeLoop (fun a => a.pageId + a.pageCount) fun a b =>
    { a with pageCount := b.pageCount + a.pageCount }

/-- `returnSpan`.  Each round of a loop takes in a page or more. -/
def returnSpan (pc : PageCache) (s : SpanId) : Option PageCache := do
  let a ← pc.heap s
  let pc := { pc with busySpanMap := pc.busySpanMap.eraseEnds a }
  let pc ← mergePrev s maxPageNum pc
  let pc ← mergeNext s maxPageNum pc
  let a ← pc.heap s
  some { pc with
    freeSpanMap := pc.freeSpanMap.setEnds a s
    spans := pushSpan pc.spans (a.pageCount - 1) s }

/-- `objectToSpan`: the last key that is not above the page. -/
def objectToSpan (pc : PageCache) (p : Addr) : Option (Option SpanId) :=
  let page := Span.ptrToId p
  match pc.busySpanMap (Nat.findGreatest (fun k => (pc.busySpanMap k).isSome = true) page) with
  | none => some none
  | some s => do
    let a ← pc.heap s
    if page ≥ a.pageId + a.pageCount then some none else some (some s)

end PageCache

end Pool

end WWRaftKV
