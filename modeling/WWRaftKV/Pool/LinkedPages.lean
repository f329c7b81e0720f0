/-
The page cache with its pointers.

A memory holds a central cache when the spans are the same objects, every span list is a
ring, and every free list is a chain through its blocks.  Each operation on the lists of
spans is one on the rings.
-/
import WWRaftKV.General.Chain
import WWRaftKV.Pool.Linked

namespace WWRaftKV

namespace Pool

open Chained (Chains Unused)

/-! ## What is stored -/

/-- The list with its front and its counter. -/
def FreeList.linked (l : FreeList) : LinkedList where
  front := l.chain.headD nullptr
  size := l.chain.length % 2 ^ 64
  maxSize := l.maxSize

def Span.linked (a : Span) : LinkedSpan where
  pageId := a.pageId
  pageCount := a.pageCount
  used := a.used
  freeList := a.freeList.linked

/-- A free list of the pool: of a span, of a thread cache, or on the way between the two. -/
inductive ListId
  | span (s : SpanId)
  | cache (thread index : Nat)
  | moving
deriving DecidableEq, Repr

/-- The blocks on the free list of a span. -/
def freeOf (o : Option Span) : List Addr := (o.map fun a => a.freeList.chain).getD []

/-- The free lists of the pool. -/
def chains (heap : SpanId → Option Span) (caches : Nat → Option ThreadCache)
    (moving : List Addr) : ListId → List Addr
  | .span s => freeOf (heap s)
  | .cache t c => ((caches t).map fun tc => (tc c).chain).getD []
  | .moving => moving

section Chains

variable {heap : SpanId → Option Span} {caches : Nat → Option ThreadCache} {moving : List Addr}
  {s : SpanId}

theorem chains_of_span {a : Span} (ha : heap s = some a) :
    chains heap caches moving (.span s) = a.freeList.chain := by
  rw [chains, freeOf, ha]
  rfl

theorem chains_of_cache {t : Nat} {tc : ThreadCache} (ht : caches t = some tc) (c : Nat) :
    chains heap caches moving (.cache t c) = (tc c).chain := by
  rw [chains, ht]
  rfl

theorem chains_span (o : Option Span) :
    chains (Function.update heap s o) caches moving =
      Function.update (chains heap caches moving) (.span s) (freeOf o) := by
  funext i
  by_cases hi : i = .span s
  · rw [hi, Function.update_self, chains, Function.update_self]
  · rw [Function.update_of_ne hi]
    cases i with
    | span t =>
      have hts : t ≠ s := fun e => hi (congrArg _ e)
      rw [chains, chains, Function.update_of_ne hts]
    | cache t c => rfl
    | moving => rfl

theorem chains_cache {t c : Nat} {tc : ThreadCache} {l : FreeList} (ht : caches t = some tc) :
    chains heap (Function.update caches t (some (Function.update tc c l))) moving =
      Function.update (chains heap caches moving) (.cache t c) l.chain := by
  funext i
  by_cases hi : i = .cache t c
  · rw [hi, Function.update_self, chains, Function.update_self, Option.map_some,
      Option.getD_some, Function.update_self]
  · rw [Function.update_of_ne hi]
    cases i with
    | span s => rfl
    | cache u d =>
      by_cases hu : u = t
      · have hd : d ≠ c := by
          rintro rfl
          exact hi (by rw [hu])
        rw [chains, chains, hu, ht, Function.update_self, Option.map_some, Option.map_some,
          Option.getD_some, Option.getD_some, Function.update_of_ne hd]
      · rw [chains, chains, Function.update_of_ne hu]
    | moving => rfl

theorem chains_moving (moving l : List Addr) :
    chains heap caches l = Function.update (chains heap caches moving) .moving l := by
  funext i
  cases i with
  | span s => rfl
  | cache t c => rfl
  | moving => rw [Function.update_self, chains]

/-- A cache is gone, or it is new. -/
theorem chains_drop {t : Nat} {o : Option ThreadCache}
    (ho : ∀ tc, o = some tc → ∀ c, (tc c).chain = []) (i : ListId) :
    chains heap (Function.update caches t o) moving i = chains heap caches moving i ∨
      chains heap (Function.update caches t o) moving i = [] := by
  cases i with
  | span s => exact .inl rfl
  | cache u c =>
    by_cases hu : u = t
    · right
      rw [chains, hu, Function.update_self]
      cases o with
      | none => rfl
      | some tc => exact ho tc rfl c
    · left
      rw [chains, chains, Function.update_of_ne hu]
  | moving => exact .inl rfl

/-- A span keeps its free list, or it loses it. -/
theorem chains_shrink {o : Option Span} (ho : freeOf o = freeOf (heap s) ∨ freeOf o = [])
    (i : ListId) : chains (Function.update heap s o) caches moving i = chains heap caches moving i ∨
      chains (Function.update heap s o) caches moving i = [] := by
  rw [chains_span]
  by_cases hi : i = .span s
  · rw [hi, Function.update_self]
    exact ho
  · rw [Function.update_of_ne hi]
    exact .inl rfl

end Chains

/-! ## Span lists -/

namespace CentralCache

def list (cc : CentralCache) : SpanListId → List SpanId
  | .page i => cc.pageCache.spans i
  | .central i => cc.spans i

def setList (cc : CentralCache) (l : SpanListId) (ss : List SpanId) : CentralCache :=
  match l with
  | .page i => { cc with pageCache :=
      { cc.pageCache with spans := Function.update cc.pageCache.spans i ss } }
  | .central i => { cc with spans := Function.update cc.spans i ss }

/-- The span is in no list. -/
def Loose (cc : CentralCache) (s : SpanId) : Prop := ∀ l, s ∉ cc.list l

theorem list_setList (cc : CentralCache) (l : SpanListId) (ss : List SpanId) :
    (cc.setList l ss).list = Function.update cc.list l ss := by
  funext k
  cases l with
  | page i =>
    cases k with
    | page j =>
      show Function.update cc.pageCache.spans i ss j = _
      by_cases hj : j = i
      · rw [hj, Function.update_self, Function.update_self]
      · have hne : SpanListId.page j ≠ .page i := fun e => hj (SpanListId.page.inj e)
        rw [Function.update_of_ne hj, Function.update_of_ne hne]
        rfl
    | central j => rfl
  | central i =>
    cases k with
    | page j => rfl
    | central j =>
      show Function.update cc.spans i ss j = _
      by_cases hj : j = i
      · rw [hj, Function.update_self, Function.update_self]
      · have hne : SpanListId.central j ≠ .central i := fun e => hj (SpanListId.central.inj e)
        rw [Function.update_of_ne hj, Function.update_of_ne hne]
        rfl

end CentralCache

/-- The lists of spans as lists of nodes. -/
def nodesOf (f : SpanListId → List SpanId) (l : SpanListId) : List Node := (f l).map Node.span

theorem nodesOf_update (f : SpanListId → List SpanId) (l : SpanListId) (ss : List SpanId) :
    nodesOf (Function.update f l ss) = Function.update (nodesOf f) l (ss.map Node.span) := by
  funext k
  unfold nodesOf
  by_cases hk : k = l
  · rw [hk, Function.update_self, Function.update_self]
  · rw [Function.update_of_ne hk, Function.update_of_ne hk]

theorem span_injective : Function.Injective Node.span := fun _ _ h => Node.span.inj h

theorem mem_nodesOf {f : SpanListId → List SpanId} {l : SpanListId} {s : SpanId} :
    Node.span s ∈ Node.head l :: nodesOf f l ↔ s ∈ f l := by
  rw [List.mem_cons, nodesOf, List.mem_map_of_injective span_injective]
  exact or_iff_right fun h => nomatch h

namespace Memory

/-! ## Memory that holds the lists -/

/-- The memory holds the central cache, and the free lists are in it.  `F` are words of
others, which are as in `w₀`. -/
structure Holds (F : Nat → Prop) (w₀ : Words) (m : Memory) (cc : CentralCache)
    (caches : Nat → Option ThreadCache) (moving : List Addr) : Prop where
  heap : m.heap = fun s => (cc.pageCache.heap s).map Span.linked
  nextSpan : m.nextSpan = cc.pageCache.nextSpan
  freeSpanMap : m.freeSpanMap = cc.pageCache.freeSpanMap
  busySpanMap : m.busySpanMap = cc.pageCache.busySpanMap
  alignPointers : m.alignPointers = cc.pageCache.alignPointers
  rings : m.nodes.Rings Node.head (nodesOf cc.list)
  present : ∀ s, (m.nodes (.span s)).isSome = (cc.pageCache.heap s).isSome
  words : Chains slot nullptr F w₀ m.words (chains cc.pageCache.heap caches moving)

namespace Holds

variable {F : Nat → Prop} {w₀ : Words} {m : Memory} {cc : CentralCache}
  {caches : Nat → Option ThreadCache} {moving : List Addr} {s : SpanId} {a b : Span}
  {l : SpanListId} {ss : List SpanId}

theorem heap_some (h : Holds F w₀ m cc caches moving) (ha : cc.pageCache.heap s = some a) :
    m.heap s = some a.linked := by
  rw [h.heap]
  show (cc.pageCache.heap s).map Span.linked = _
  rw [ha]
  rfl

/-- The heap where one span is another. -/
theorem heap_update (h : Holds F w₀ m cc caches moving) (s : SpanId) (o : Option Span) :
    Function.update m.heap s (o.map Span.linked) =
      fun t => (Function.update cc.pageCache.heap s o t).map Span.linked := by
  rw [h.heap]
  funext t
  by_cases ht : t = s
  · rw [ht, Function.update_self, Function.update_self]
  · rw [Function.update_of_ne ht, Function.update_of_ne ht]

theorem empty_eq (h : Holds F w₀ m cc caches moving) (l : SpanListId) :
    m.empty l = (cc.list l).isEmpty := by
  unfold Memory.empty
  rw [Bool.eq_iff_iff, decide_eq_true_iff, (h.rings.ring l).next_eq_head_iff, nodesOf,
    List.map_eq_nil_iff, List.isEmpty_iff]

theorem front_eq (h : Holds F w₀ m cc caches moving) (hl : cc.list l = s :: ss) :
    m.front l = some s := by
  unfold Memory.front
  rw [(h.rings.ring l).next, nodesOf, hl]
  rfl

/-! ### Edits of the lists -/

theorem loose_span (hs : cc.Loose s) (l : SpanListId) :
    Node.span s ∉ Node.head l :: nodesOf cc.list l := by
  rw [mem_nodesOf]
  exact hs l

theorem nodesOf_setList (cc : CentralCache) (l : SpanListId) (ss : List SpanId) :
    nodesOf (cc.setList l ss).list = Function.update (nodesOf cc.list) l (ss.map Node.span) := by
  rw [CentralCache.list_setList, nodesOf_update]

/-- One ring has changed. -/
theorem relist (h : Holds F w₀ m cc caches moving) {nodes : Nodes Node} {A : Node → Prop}
    (hrings : nodes.Rings Node.head (Function.update (nodesOf cc.list) l (ss.map Node.span)))
    (hedit : Nodes.Edits A m.nodes nodes) :
    Holds F w₀ { m with nodes := nodes } (cc.setList l ss) caches moving := by
  rw [← nodesOf_setList] at hrings
  have hpresent : ∀ t, (nodes (.span t)).isSome = (cc.pageCache.heap t).isSome :=
    fun t => (hedit.present _).trans (h.present t)
  cases l <;> exact { h with rings := hrings, present := hpresent }

/-- A node that is in no ring is of a span that is in no list. -/
theorem loose_of_out (hout : ∀ k, Node.span s ∉ Node.head k ::
    Function.update (nodesOf cc.list) l (ss.map Node.span) k) : (cc.setList l ss).Loose s := by
  rw [← nodesOf_setList] at hout
  exact fun k hk => hout k (mem_nodesOf.mpr hk)

theorem loose_setList (hs : cc.Loose s) (l : SpanListId) (hss : s ∉ ss) :
    (cc.setList l ss).Loose s := by
  intro k
  rw [CentralCache.list_setList]
  by_cases hk : k = l
  · rw [hk, Function.update_self]
    exact hss
  · rw [Function.update_of_ne hk]
    exact hs k

theorem popFront (h : Holds F w₀ m cc caches moving) (hl : cc.list l = s :: ss) :
    ∃ m', m.popFront l = some m' ∧ Holds F w₀ m' (cc.setList l ss) caches moving ∧
      (cc.setList l ss).Loose s := by
  have hnodes : nodesOf cc.list l = .span s :: ss.map Node.span := by
    rw [nodesOf, hl]
    rfl
  obtain ⟨nodes, hrun, hrings, hedit, hout⟩ := h.rings.popFront hnodes
  refine ⟨{ m with nodes := nodes }, ?_, h.relist hrings hedit, loose_of_out hout⟩
  rw [Memory.popFront, hrun]
  rfl

theorem pushFront (h : Holds F w₀ m cc caches moving) (hs : cc.Loose s)
    (ha : cc.pageCache.heap s = some a) (l : SpanListId) :
    ∃ m', m.pushFront l s = some m' ∧
      Holds F w₀ m' (cc.setList l (s :: cc.list l)) caches moving := by
  have hthere : (m.nodes (.span s)).isSome = true := by
    rw [h.present, ha]
    rfl
  obtain ⟨nodes, hrun, hrings, hedit⟩ := h.rings.pushFront (i := l) (loose_span hs) hthere
  have hring : nodes.Rings Node.head
      (Function.update (nodesOf cc.list) l ((s :: cc.list l).map Node.span)) := hrings
  refine ⟨{ m with nodes := nodes }, ?_, h.relist hring hedit⟩
  rw [Memory.pushFront, hrun]
  rfl

theorem erase (h : Holds F w₀ m cc caches moving) (hs : s ∈ cc.list l) :
    ∃ m', m.erase s = some m' ∧ Holds F w₀ m' (cc.setList l ((cc.list l).erase s)) caches moving ∧
      (cc.setList l ((cc.list l).erase s)).Loose s := by
  have hmem : Node.span s ∈ nodesOf cc.list l := List.mem_map_of_mem hs
  obtain ⟨nodes, hrun, hrings, hedit, hout⟩ := h.rings.erase hmem
  have herase : (nodesOf cc.list l).erase (.span s) = ((cc.list l).erase s).map Node.span :=
    (List.map_erase span_injective (cc.list l)).symm
  rw [herase] at hrings hout
  refine ⟨{ m with nodes := nodes }, ?_, h.relist hrings hedit, loose_of_out hout⟩
  rw [Memory.erase, hrun]
  rfl

/-! ### Edits of the span objects -/

theorem present_update {nodes : Nodes Node} {heap : SpanId → Option Span} {n : Option (Link Node)}
    {o : Option Span} (h : ∀ t, (nodes (.span t)).isSome = (heap t).isSome)
    (hsome : n.isSome = o.isSome) (t : SpanId) :
    (Function.update nodes (.span s) n (.span t)).isSome =
      (Function.update heap s o t).isSome := by
  by_cases ht : t = s
  · rw [ht, Function.update_self, Function.update_self, hsome]
  · have hne : Node.span t ≠ .span s := fun e => ht (Node.span.inj e)
    rw [Function.update_of_ne ht, Function.update_of_ne hne]
    exact h t

/-- A node that is in no ring comes or goes. -/
theorem rings_update (h : Holds F w₀ m cc caches moving) (hs : cc.Loose s)
    (n : Option (Link Node)) :
    Nodes.Rings (Function.update m.nodes (.span s) n) Node.head (nodesOf cc.list) := by
  apply h.rings.congr
  intro l x hx
  rw [Function.update_of_ne]
  rintro rfl
  exact loose_span hs l hx

/-- A span that is not there is in no list. -/
theorem loose_of_none (h : Holds F w₀ m cc caches moving) (hs : cc.pageCache.heap s = none) :
    cc.Loose s := by
  intro l hl
  have hthere := (h.rings.ring l).present (.span s) (mem_nodesOf.mpr hl)
  rw [h.present, hs] at hthere
  cases hthere

/-- A span that is there is written. -/
theorem present_set (h : Holds F w₀ m cc caches moving) (ha : cc.pageCache.heap s = some a)
    (b : Span) (t : SpanId) : (m.nodes (.span t)).isSome =
      (Function.update cc.pageCache.heap s (some b) t).isSome := by
  rw [h.present]
  by_cases ht : t = s
  · rw [ht, Function.update_self, ha]
    rfl
  · rw [Function.update_of_ne ht]

/-- A span is written, and its free list stays or goes. -/
theorem setSpan (h : Holds F w₀ m cc caches moving) (ha : cc.pageCache.heap s = some a)
    (hb : b.freeList.chain = a.freeList.chain ∨ b.freeList.chain = []) :
    Holds F w₀ (m.setSpan s b.linked) (cc.setSpan s b) caches moving :=
  { h with
    heap := h.heap_update s (some b)
    present := h.present_set ha b
    words := by
      apply h.words.shrink
      apply chains_shrink
      rw [ha]
      exact hb }

theorem newSpan (h : Holds F w₀ m cc caches moving) (new : SpanId)
    (hnew : cc.pageCache.nextSpan = new) (hfresh : cc.pageCache.heap new = none) :
    m.newSpan.2 = new ∧ cc.Loose new ∧
      Holds F w₀ m.newSpan.1 { cc with pageCache := { cc.pageCache with
        heap := Function.update cc.pageCache.heap new (some Span.new)
        nextSpan := new + 1 } } caches moving := by
  have hloose := h.loose_of_none hfresh
  have hnext : m.nextSpan = new := h.nextSpan.trans hnew
  refine ⟨hnext, hloose, { h with
    heap := ?_, nextSpan := ?_, rings := ?_, present := ?_, words := ?_ }⟩
  · show Function.update m.heap m.nextSpan (some LinkedSpan.new) = _
    rw [hnext]
    exact h.heap_update _ (some Span.new)
  · show m.nextSpan + 1 = _
    rw [hnext]
  · show Nodes.Rings (Function.update m.nodes (.span m.nextSpan) _) Node.head _
    rw [hnext]
    exact h.rings_update hloose _
  · intro t
    show (Function.update m.nodes (.span m.nextSpan) _ (.span t)).isSome = _
    rw [hnext]
    exact present_update h.present rfl t
  · apply h.words.shrink
    apply chains_shrink
    exact .inr rfl

theorem deleteSpan (h : Holds F w₀ m cc caches moving) (hs : cc.Loose s) :
    Holds F w₀ (m.deleteSpan s) { cc with pageCache := { cc.pageCache with
      heap := Function.update cc.pageCache.heap s none } } caches moving :=
  { h with
    heap := h.heap_update s none
    rings := h.rings_update hs none
    present := present_update h.present rfl
    words := by
      apply h.words.shrink
      apply chains_shrink
      exact .inr rfl }

theorem setFree (h : Holds F w₀ m cc caches moving) (free : SpanMap) :
    Holds F w₀ { m with freeSpanMap := free }
      { cc with pageCache := { cc.pageCache with freeSpanMap := free } } caches moving :=
  { h with freeSpanMap := rfl }

theorem setBusy (h : Holds F w₀ m cc caches moving) (busy : SpanMap) :
    Holds F w₀ { m with busySpanMap := busy }
      { cc with pageCache := { cc.pageCache with busySpanMap := busy } } caches moving :=
  { h with busySpanMap := rfl }

/-- The heap is written in another way. -/
theorem congr_heap (h : Holds F w₀ m cc caches moving) {heap : SpanId → Option Span}
    (hheap : cc.pageCache.heap = heap) :
    Holds F w₀ m { cc with pageCache := { cc.pageCache with heap := heap } } caches moving := by
  subst hheap
  exact h

/-- A span comes, and its fields are written. -/
theorem createSpan (h : Holds F w₀ m cc caches moving) (new : SpanId)
    (hnew : cc.pageCache.nextSpan = new) (hfresh : cc.pageCache.heap new = none)
    (hb : b.freeList.chain = []) :
    m.newSpan = (m.newSpan.1, new) ∧ cc.Loose new ∧
      Holds F w₀ (m.newSpan.1.setSpan new b.linked) { cc with pageCache := { cc.pageCache with
        heap := Function.update cc.pageCache.heap new (some b)
        nextSpan := new + 1 } } caches moving := by
  obtain ⟨hid, hout, h₁⟩ := h.newSpan new hnew hfresh
  have h₂ := h₁.setSpan (s := new) (a := Span.new) (b := b) (Function.update_self ..) (.inr hb)
  exact ⟨Prod.ext rfl hid, hout, h₂.congr_heap (Function.update_idem ..)⟩

/-! ### Fetching a span -/

section Fetch

variable {pages i : Nat} {pc' : PageCache} {o : Option SpanId}

/-- What the operations of the page cache leave: the memory holds the new page cache, and the
span that is handed out is in no list. -/
def Hands (F : Nat → Prop) (w₀ : Words) (r : Option (Memory × Option SpanId)) (cc : CentralCache)
    (caches : Nat → Option ThreadCache) (moving : List Addr) (o : Option SpanId) : Prop :=
  ∃ m', r = some (m', o) ∧ Holds F w₀ m' cc caches moving ∧ ∀ s, o = some s → cc.Loose s

theorem fetchExact (h : Holds F w₀ m cc caches moving)
    (hl : cc.pageCache.spans (pages - 1) = s :: ss)
    (hrun : cc.pageCache.fetchExact pages s ss = some (pc', o)) :
    Hands F w₀ (m.fetchExact pages) { cc with pageCache := pc' } caches moving o := by
  obtain ⟨a, ha, hrun⟩ := Option.bind_eq_some_iff.mp hrun
  cases hrun
  obtain ⟨m₁, hpop, h₁, hloose⟩ := h.popFront (l := .page (pages - 1)) hl
  have ha₁ : m₁.heap s = some a.linked := h₁.heap_some ha
  refine ⟨_, ?_, (h₁.setFree (cc.pageCache.freeSpanMap.eraseEnds a)).setBusy
    (cc.pageCache.busySpanMap.setEnds a s), ?_⟩
  · rw [Memory.fetchExact, h.front_eq (l := .page (pages - 1)) hl]
    simp only [Option.bind_eq_bind, Option.bind_some]
    rw [hpop, Option.bind_some, ha₁, Option.bind_some, h₁.freeSpanMap, h₁.busySpanMap]
    rfl
  · intro t ht
    cases ht
    exact hloose

theorem loose_push {t : SpanId} (hs : cc.Loose s) (hne : s ≠ t) (l : SpanListId) :
    (cc.setList l (t :: cc.list l)).Loose s := by
  apply loose_setList hs
  rw [List.mem_cons, not_or]
  exact ⟨hne, hs l⟩

theorem fetchSplit (h : Holds F w₀ m cc caches moving)
    (hfresh : cc.pageCache.heap cc.pageCache.nextSpan = none)
    (hl : cc.pageCache.spans i = s :: ss)
    (hrun : cc.pageCache.fetchSplit pages i s ss = some (pc', o)) :
    Hands F w₀ (m.fetchSplit pages i) { cc with pageCache := pc' } caches moving o := by
  obtain ⟨a, ha, -⟩ := Option.bind_eq_some_iff.mp hrun
  obtain ⟨split, hsplit⟩ : ∃ split, split = cc.pageCache.nextSpan := ⟨_, rfl⟩
  obtain ⟨back, hback⟩ : ∃ back : Span, back =
    { Span.new with pageId := a.pageId + i + 1 - pages, pageCount := pages } := ⟨_, rfl⟩
  obtain ⟨front, hfront⟩ : ∃ front : Span, front = { a with pageCount := i + 1 - pages } :=
    ⟨_, rfl⟩
  rw [← hsplit] at hfresh
  have hne : s ≠ split := by
    rintro rfl
    cases ha.symm.trans hfresh
  obtain ⟨m₁, hpop, h₁, hloose₁⟩ := h.popFront (l := .page i) hl
  -- the new object, and what is written to the two
  obtain ⟨hnew, hout, h₂⟩ := h₁.createSpan (b := back) split hsplit.symm hfresh
    (by rw [hback]; rfl)
  have ha₂ : Function.update cc.pageCache.heap split (some back) s = some a :=
    (Function.update_of_ne hne ..).trans ha
  have h₃ := h₂.setSpan (s := s) (a := a) (b := front) ha₂ (.inl (by rw [hfront]))
  obtain ⟨m₄, hpush, h₄⟩ := h₃.pushFront (s := s) (a := front) hloose₁ (Function.update_self ..)
    (.page (front.pageCount - 1))
  have hheap : Function.update (Function.update cc.pageCache.heap split (some back)) s
      (some front) =
      Function.update (Function.update cc.pageCache.heap s (some front)) split (some back) :=
    Function.update_comm (Ne.symm hne) ..
  have hread : m₁.newSpan.1.heap s = some a.linked := by
    have hsplit₁ : m₁.nextSpan = split := congrArg Prod.snd hnew
    show Function.update m₁.heap m₁.nextSpan _ s = _
    rw [hsplit₁, Function.update_of_ne hne, h₁.heap_some ha]
  have hpc : cc.pageCache.fetchSplit pages i s ss = some ({ cc.pageCache with
      heap := Function.update (Function.update cc.pageCache.heap s (some front)) split (some back)
      nextSpan := split + 1
      spans := PageCache.pushSpan (Function.update cc.pageCache.spans i ss)
        (front.pageCount - 1) s
      freeSpanMap := Function.update (Function.update cc.pageCache.freeSpanMap
        (front.pageId + front.pageCount + back.pageCount - 1) none)
        (front.pageId + front.pageCount - 1) (some s)
      busySpanMap := cc.pageCache.busySpanMap.setEnds back split }, some split) := by
    rw [PageCache.fetchSplit, ha, hsplit, hback, hfront]
    rfl
  cases hrun.symm.trans hpc
  refine ⟨_, ?_, ((h₄.congr_heap hheap).setFree
    (Function.update (Function.update cc.pageCache.freeSpanMap
      (front.pageId + front.pageCount + back.pageCount - 1) none)
      (front.pageId + front.pageCount - 1) (some s))).setBusy
    (cc.pageCache.busySpanMap.setEnds back split), ?_⟩
  · subst hback hfront
    rw [Memory.fetchSplit, h.front_eq (l := .page i) hl]
    simp only [Option.bind_eq_bind, Option.bind_some]
    rw [hpop, Option.bind_some, hnew]
    dsimp only
    rw [hread, Option.bind_some]
    refine Option.bind_eq_some_iff.mpr ⟨m₄, hpush, ?_⟩
    rw [h₄.freeSpanMap, h₄.busySpanMap]
    rfl
  · intro t ht
    cases ht
    exact loose_push hout (Ne.symm hne) (.page (front.pageCount - 1))

/-- The region is recorded. -/
theorem addPointer (h : Holds F w₀ m cc caches moving) (p : Addr) :
    Holds F w₀ { m with alignPointers := m.alignPointers ++ [p] } { cc with pageCache :=
      { cc.pageCache with alignPointers := cc.pageCache.alignPointers ++ [p] } } caches moving :=
  { h with alignPointers := congrArg (· ++ [p]) h.alignPointers }

/-- All pages of the region are asked for. -/
theorem fetchWhole (h : Holds F w₀ m cc caches moving) {new : SpanId}
    (hnew : cc.pageCache.nextSpan = new) (hfresh : cc.pageCache.heap new = none) (p : Addr)
    (hpages : pages = maxPageNum) (hrun : cc.pageCache.fetchSystem pages p = (pc', o)) :
    Hands F w₀ (m.fetchSystem pages p) { cc with pageCache := pc' } caches moving o := by
  obtain ⟨whole, hwhole⟩ : ∃ whole : Span, whole =
    { Span.new with pageId := Span.ptrToId p, pageCount := maxPageNum } := ⟨_, rfl⟩
  have h₁ := h.addPointer p
  obtain ⟨hid, hout, h₂⟩ := h₁.createSpan (b := whole) new hnew hfresh (by rw [hwhole]; rfl)
  have hpc : cc.pageCache.fetchSystem pages p = ({ cc.pageCache with
      heap := Function.update cc.pageCache.heap new (some whole)
      nextSpan := new + 1
      busySpanMap := cc.pageCache.busySpanMap.setEnds whole new
      alignPointers := cc.pageCache.alignPointers ++ [p] }, some new) := by
    rw [PageCache.fetchSystem, if_pos hpages, hnew, hwhole]
  cases hrun.symm.trans hpc
  refine ⟨_, ?_, h₂.setBusy (cc.pageCache.busySpanMap.setEnds whole new), ?_⟩
  · subst hwhole
    rw [Memory.fetchSystem]
    dsimp only
    rw [hid]
    dsimp only
    rw [if_pos hpages, ← h.busySpanMap]
    rfl
  · intro t ht
    cases ht
    exact hout

/-- The back part of the region is asked for. -/
theorem fetchRegion (h : Holds F w₀ m cc caches moving) {new : SpanId}
    (hnew : cc.pageCache.nextSpan = new) (hfresh : cc.pageCache.heap new = none)
    (hfresh' : cc.pageCache.heap (new + 1) = none) (p : Addr) (hpages : pages ≠ maxPageNum)
    (hrun : cc.pageCache.fetchSystem pages p = (pc', o)) :
    Hands F w₀ (m.fetchSystem pages p) { cc with pageCache := pc' } caches moving o := by
  obtain ⟨front, hfront⟩ : ∃ front : Span, front =
    { Span.new with pageId := Span.ptrToId p, pageCount := maxPageNum - pages } := ⟨_, rfl⟩
  obtain ⟨back, hback⟩ : ∃ back : Span, back =
    { Span.new with pageId := front.pageId + maxPageNum - pages, pageCount := pages } := ⟨_, rfl⟩
  have hne : new + 1 ≠ new := Nat.succ_ne_self new
  have h₁ := h.addPointer p
  obtain ⟨hid, hout, h₂⟩ := h₁.createSpan (b := front) new hnew hfresh (by rw [hfront]; rfl)
  obtain ⟨hid', hout', h₃⟩ := h₂.createSpan (b := back) (new + 1) rfl
    ((Function.update_of_ne hne ..).trans hfresh') (by rw [hback]; rfl)
  have hhere : Function.update (Function.update cc.pageCache.heap new (some front)) (new + 1)
      (some back) new = some front := by
    rw [Function.update_of_ne (Ne.symm hne), Function.update_self]
  obtain ⟨m₄, hpush, h₄⟩ := h₃.pushFront (s := new) (a := front) hout hhere
    (.page (front.pageCount - 1))
  have hpc : cc.pageCache.fetchSystem pages p = (
      { heap := Function.update (Function.update cc.pageCache.heap new (some front)) (new + 1)
          (some back)
        nextSpan := new + 2
        spans := PageCache.pushSpan cc.pageCache.spans (front.pageCount - 1) new
        freeSpanMap := cc.pageCache.freeSpanMap.setEnds front new
        busySpanMap := cc.pageCache.busySpanMap.setEnds back (new + 1)
        alignPointers := cc.pageCache.alignPointers ++ [p] }, some (new + 1)) := by
    rw [PageCache.fetchSystem, if_neg hpages, hnew, hback, hfront]
  cases hrun.symm.trans hpc
  refine ⟨_, ?_, (h₄.setFree (cc.pageCache.freeSpanMap.setEnds front new)).setBusy
    (cc.pageCache.busySpanMap.setEnds back (new + 1)), ?_⟩
  · subst hback hfront
    rw [Memory.fetchSystem]
    dsimp only
    rw [hid]
    dsimp only
    have hsecond : ∀ a, (({ m with alignPointers := m.alignPointers ++ [p] } :
        Memory).newSpan.1.setSpan new a).newSpan.2 = new + 1 :=
      fun _ => congrArg Prod.snd hid'
    rw [if_neg hpages, hsecond]
    refine Option.bind_eq_some_iff.mpr ⟨m₄, hpush, ?_⟩
    rw [h₄.freeSpanMap, h₄.busySpanMap]
    rfl
  · intro t ht
    cases ht
    exact loose_push hout' hne (.page (front.pageCount - 1))

theorem fetchSpan (h : Holds F w₀ m cc caches moving)
    (hfresh : ∀ s : Nat, cc.pageCache.nextSpan ≤ s → cc.pageCache.heap s = none)
    {system : Option Addr} (hrun : cc.pageCache.fetchSpan pages system = some (pc', o)) :
    Hands F w₀ (m.fetchSpan pages system) { cc with pageCache := pc' } caches moving o := by
  have hnew := hfresh cc.pageCache.nextSpan (Nat.le_refl _)
  have hnew' := hfresh (cc.pageCache.nextSpan + 1) (Nat.le_succ _)
  have hempty : ∀ i, m.empty (.page i) = (cc.pageCache.spans i).isEmpty :=
    fun i => h.empty_eq (.page i)
  unfold Memory.fetchSpan
  unfold PageCache.fetchSpan at hrun
  simp only [hempty]
  cases hexact : cc.pageCache.spans (pages - 1) with
  | cons s ss =>
    rw [hexact] at hrun
    exact h.fetchExact hexact hrun
  | nil =>
    rw [hexact] at hrun
    simp only [List.isEmpty_nil, Bool.not_true, Bool.false_eq_true, if_false]
    dsimp only at hrun
    cases hfind : (List.range' pages (maxPageNum - pages)).find? fun i =>
        !(cc.pageCache.spans i).isEmpty with
    | some i =>
      rw [hfind] at hrun
      dsimp only at hrun ⊢
      cases hsplit : cc.pageCache.spans i with
      | nil =>
        rw [hsplit] at hrun
        cases hrun
      | cons s ss =>
        rw [hsplit] at hrun
        exact h.fetchSplit hnew hsplit hrun
    | none =>
      rw [hfind] at hrun
      dsimp only at hrun ⊢
      cases system with
      | none =>
        cases hrun
        exact ⟨m, rfl, h, fun s hs => nomatch hs⟩
      | some p =>
        have hsystem := Option.some.inj hrun
        by_cases hpages : pages = maxPageNum
        · exact h.fetchWhole rfl hnew p hpages hsystem
        · exact h.fetchRegion rfl hnew hnew' p hpages hsystem

end Fetch

/-! ### Returning a span -/

section Return

variable {pc' : PageCache}

theorem loose_erase (hs : cc.Loose s) (l : SpanListId) (t : SpanId) :
    (cc.setList l ((cc.list l).erase t)).Loose s := by
  apply loose_setList hs
  exact fun hmem => hs l (List.mem_of_mem_erase hmem)

/-- The loops of `returnSpan`, over the objects and over what they hold. -/
structure SameLoop (key : Span → Nat) (joined : Span → Span → Span) (key' : LinkedSpan → Nat)
    (joined' : LinkedSpan → LinkedSpan → LinkedSpan) : Prop where
  key_eq : ∀ a : Span, key' a.linked = key a
  joined_eq : ∀ a b : Span, joined' a.linked b.linked = (joined a b).linked
  freeList_eq : ∀ a b, (joined a b).freeList = a.freeList

theorem mergeLoop {key : Span → Nat} {joined : Span → Span → Span} {key' : LinkedSpan → Nat}
    {joined' : LinkedSpan → LinkedSpan → LinkedSpan} (hsame : SameLoop key joined key' joined')
    (rounds : Nat) (h : Holds F w₀ m cc caches moving) (hs : cc.Loose s)
    (hrun : PageCache.mergeLoop key joined s rounds cc.pageCache = some pc') :
    ∃ m', Memory.mergeLoop key' joined' s rounds m = some m' ∧
      Holds F w₀ m' { cc with pageCache := pc' } caches moving ∧
      CentralCache.Loose { cc with pageCache := pc' } s := by
  induction rounds generalizing m cc with
  | zero => cases hrun
  | succ rounds ih =>
    obtain ⟨a, ha, hrun⟩ := Option.bind_eq_some_iff.mp hrun
    have hkey := hsame.key_eq a
    rw [Memory.mergeLoop, h.heap_some ha]
    simp only [Option.bind_eq_bind, Option.bind_some]
    rw [hkey, h.freeSpanMap]
    cases hfind : cc.pageCache.freeSpanMap (key a) with
    | none =>
      rw [hfind] at hrun
      cases hrun
      exact ⟨m, rfl, h, hs⟩
    | some t =>
      rw [hfind] at hrun
      obtain ⟨b, hb, hrun⟩ := Option.bind_eq_some_iff.mp hrun
      dsimp only
      rw [h.heap_some hb, Option.bind_some, show a.linked.pageCount = a.pageCount from rfl,
        show b.linked.pageCount = b.pageCount from rfl]
      split at hrun
      next hlarge =>
        cases hrun
        rw [if_pos hlarge]
        exact ⟨m, rfl, h, hs⟩
      next hlarge =>
        rw [if_neg hlarge]
        obtain ⟨list, herase, hrun⟩ := Option.bind_eq_some_iff.mp hrun
        unfold eraseSpan at herase
        split at herase
        next hmem =>
          cases herase
          obtain ⟨m₁, hrun₁, h₁, hout⟩ := h.erase (l := .page (b.pageCount - 1)) hmem
          have hs₁ := loose_erase hs (.page (b.pageCount - 1)) t
          have h₂ := h₁.setFree (cc.pageCache.freeSpanMap.eraseEnds b)
          have h₃ := h₂.setSpan (s := s) (a := a) (b := joined a b) ha
            (.inl (by rw [hsame.freeList_eq]))
          have h₄ := h₃.deleteSpan (s := t) hout
          obtain ⟨m', hrun', h', hs'⟩ := ih h₄ hs₁ hrun
          refine ⟨m', ?_, h', hs'⟩
          rw [hrun₁, Option.bind_some, ← hrun', hsame.joined_eq, h₁.freeSpanMap]
          rfl
        next => cases herase

theorem sameLoop_prev : SameLoop (fun a => (a.pageId + 2 ^ 64 - 1) % 2 ^ 64)
    (fun a b => { a with pageId := b.pageId, pageCount := b.pageCount + a.pageCount })
    (fun a => (a.pageId + 2 ^ 64 - 1) % 2 ^ 64)
    fun a b => { a with pageId := b.pageId, pageCount := b.pageCount + a.pageCount } where
  key_eq := fun _ => rfl
  joined_eq := fun _ _ => rfl
  freeList_eq := fun _ _ => rfl

theorem sameLoop_next : SameLoop (fun a => a.pageId + a.pageCount)
    (fun a b => { a with pageCount := b.pageCount + a.pageCount })
    (fun a => a.pageId + a.pageCount)
    fun a b => { a with pageCount := b.pageCount + a.pageCount } where
  key_eq := fun _ => rfl
  joined_eq := fun _ _ => rfl
  freeList_eq := fun _ _ => rfl

theorem returnSpan (h : Holds F w₀ m cc caches moving) (hs : cc.Loose s)
    (hrun : cc.pageCache.returnSpan s = some pc') :
    ∃ m', m.returnSpan s = some m' ∧ Holds F w₀ m' { cc with pageCache := pc' } caches moving := by
  obtain ⟨a, ha, hrun⟩ := Option.bind_eq_some_iff.mp hrun
  obtain ⟨pc₁, hprev, hrun⟩ := Option.bind_eq_some_iff.mp hrun
  obtain ⟨pc₂, hnext, hrun⟩ := Option.bind_eq_some_iff.mp hrun
  obtain ⟨b, hb, hrun⟩ := Option.bind_eq_some_iff.mp hrun
  cases hrun
  have h₀ := h.setBusy (cc.pageCache.busySpanMap.eraseEnds a)
  obtain ⟨m₁, hrun₁, h₁, hs₁⟩ := h₀.mergeLoop sameLoop_prev maxPageNum hs hprev
  obtain ⟨m₂, hrun₂, h₂, hs₂⟩ := h₁.mergeLoop sameLoop_next maxPageNum hs₁ hnext
  have h₃ := h₂.setFree (pc₂.freeSpanMap.setEnds b s)
  obtain ⟨m', hpush, h'⟩ := h₃.pushFront hs₂ hb (.page (b.pageCount - 1))
  refine ⟨m', ?_, h'⟩
  rw [Memory.returnSpan, h.heap_some ha]
  simp only [Option.bind_eq_bind, Option.bind_some]
  rw [h.busySpanMap, Memory.mergePrev, Memory.mergeNext]
  refine Option.bind_eq_some_iff.mpr ⟨m₁, hrun₁, Option.bind_eq_some_iff.mpr ⟨m₂, hrun₂, ?_⟩⟩
  rw [h₂.heap_some hb, Option.bind_some, h₂.freeSpanMap]
  exact hpush

theorem objectToSpan_eq (h : Holds F w₀ m cc caches moving) (p : Addr) :
    m.objectToSpan p = cc.pageCache.objectToSpan p := by
  unfold Memory.objectToSpan PageCache.objectToSpan
  rw [h.busySpanMap]
  dsimp only
  cases hfound : cc.pageCache.busySpanMap
      (Nat.findGreatest (fun k => (cc.pageCache.busySpanMap k).isSome = true) (Span.ptrToId p)) with
  | none => rfl
  | some s =>
    rw [h.heap]
    dsimp only
    cases cc.pageCache.heap s <;> rfl

end Return

end Holds

end Memory

end Pool

end WWRaftKV
