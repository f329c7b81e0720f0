/-
An allocation for which the system refuses a region.

The calls of `allocate` are followed with what they do to the locks, and past the point
where a list is unlocked that is not locked.  `_GetFreeSpan` gives the lock of its caller
back before it asks the page cache, and takes it again only with a span.  Without one,
`fetchRange` unlocks the list a second time, `_FetchFromCentralCache` raises the limit of
the empty free list, and `allocate` pops it.
-/
import WWRaftKV.Pool.Lists

namespace WWRaftKV

namespace Pool

/-! ## Locks -/

/-- The lock of the spans of one size class, and that of the page cache. -/
inductive Lock
  | list (index : Nat)
  | pages
deriving DecidableEq, Repr

inductive LockEvent
  | lock (l : Lock)
  | unlock (l : Lock)
deriving DecidableEq, Repr

namespace LockEvent

/-- What one thread holds after the event. -/
def step (held : List Lock) : LockEvent → Option (List Lock)
  | .lock l => some (l :: held)
  | .unlock l => some (held.erase l)

/-- A lock is not taken twice, and only a lock that is held is released. -/
def Ok (held : List Lock) : LockEvent → Prop
  | .lock l => l ∉ held
  | .unlock l => l ∈ held

end LockEvent

/-- Every lock that is taken is released exactly once. -/
def Balanced (events : List LockEvent) : Prop :=
  Transition.Run LockEvent.step LockEvent.Ok [] events []

/-! ## The calls with their locks -/

namespace Locks

/-- `_GetFreeSpan`, which is called with the list locked.  `fetchSpan` has a guard of its
own. -/
def getFreeSpan (cc : CentralCache) (size : Nat) (system : Option Addr) :
    Option (List LockEvent × CentralCache × Option SpanId) := do
  let index := Size.sizeToIndex size
  let found ← CentralCache.findFree cc.pageCache.heap (cc.spans index)
  match found with
  | some s => some ([], cc, some s)
  | none => do
    let (pageCache, span) ← cc.pageCache.fetchSpan (CentralCache.pageCountFor size) system
    let events := [.unlock (.list index), .lock .pages, .unlock .pages]
    let cc := { cc with pageCache := pageCache }
    match span with
    | none => some (events, cc, none)
    | some s => do
      let a ← pageCache.heap s
      let cc := cc.setSpan s (CentralCache.carve a size)
      some (events ++ [.lock (.list index)],
        { cc with spans := Function.update cc.spans index (s :: cc.spans index) }, some s)

/-- `fetchRange`.  A null pointer is a list without blocks. -/
def fetchRange (cc : CentralCache) (size count : Nat) (system : Option Addr) :
    Option (List LockEvent × CentralCache × List Addr) := do
  let index := Size.sizeToIndex size
  let (events, cc, span) ← getFreeSpan cc size system
  let events := .lock (.list index) :: (events ++ [.unlock (.list index)])
  match span with
  | none => some (events, cc, [])
  | some s => do
    let a ← cc.pageCache.heap s
    let (a, head) ← CentralCache.fetchLoop count a []
    some (events, cc.setSpan s a, head)

/-- `_FetchFromCentralCache`. -/
def fetchFromCentralCache (tc : ThreadCache) (cc : CentralCache) (size : Nat)
    (system : Option Addr) : Option (List LockEvent × CentralCache × ThreadCache) := do
  let index := Size.sizeToIndex size
  let list := tc index
  let count := if list.maxSize > maxBlockNum then maxBlockNum else list.maxSize
  let (events, cc, objects) ← fetchRange cc size count system
  let list := objects.foldl FreeList.pushFront list
  some (events, cc, Function.update tc index (list.setMaxSize (count + 1)))

end Locks

/-- How far a call of `allocate` comes: there is no result if it pops an empty list. -/
structure Attempt where
  events : List LockEvent
  centralCache : CentralCache
  threadCache : ThreadCache
  result : Option ThreadCache.Allocation

namespace Locks

/-- `allocate`. -/
def allocate (tc : ThreadCache) (cc : CentralCache) (size : Nat) (system : Option Addr) :
    Option Attempt :=
  if size = 0 then some ⟨[], cc, tc, some .nullptr⟩
  else if size > maxMemorySize then some ⟨[], cc, tc, some .heap⟩
  else do
    let roundSize := Size.roundUp size
    let index := Size.sizeToIndex roundSize
    let (events, cc, tc) ← if (tc index).chain.isEmpty then
        fetchFromCentralCache tc cc roundSize system
      else some ([], cc, tc)
    match (tc index).popFront with
    | none => some ⟨events, cc, tc, none⟩
    | some (object, list) =>
      some ⟨events, cc, Function.update tc index list, some (.block object)⟩

end Locks

/-- The call gives nothing, and nothing is lost: the locks are back, and the lists of the
thread, of the central cache and of the page cache are what they were. -/
structure Attempt.FailsCleanly (a : Attempt) (tc : ThreadCache) (cc : CentralCache) : Prop where
  nullptr : a.result = some .nullptr
  balanced : Balanced a.events
  thread : ∀ c, (a.threadCache c).chain = (tc c).chain
  central : a.centralCache = cc

/-- An allocation of this size has to ask the system: there is no block in the thread cache,
none in the spans of its class, and no free span that is long enough. -/
structure ThreadCache.NeedsRegion (tc : ThreadCache) (cc : CentralCache) (size : Nat) : Prop where
  thread : (tc (Size.sizeToIndex (Size.roundUp size))).chain = []
  central : ∀ s ∈ cc.spans (Size.sizeToIndex (Size.roundUp size)), ∀ a,
    cc.pageCache.heap s = some a → a.freeList.chain = []
  pages : ∀ i, CentralCache.pageCountFor (Size.roundUp size) - 1 ≤ i → i < maxPageNum →
    cc.pageCache.spans i = []

/-! ## A defined call -/

section Balance

variable (l : Lock)

theorem step_unlock_head (held : List Lock) :
    LockEvent.step (l :: held) (.unlock l) = some held := by
  rw [LockEvent.step, List.erase_cons_head]

/-- A lock that is taken and given back at once, by a thread without locks. -/
theorem balanced_cons {events : List LockEvent} (h : Balanced events) :
    Balanced (.lock l :: .unlock l :: events) :=
  .cons (List.not_mem_nil) rfl (.cons List.mem_cons_self (step_unlock_head l []) h)

/-- A thread without locks has nothing to give back. -/
theorem not_balanced_unlock (events : List LockEvent) : ¬ Balanced (.unlock l :: events) := by
  intro h
  cases h with
  | cons hok => exact absurd hok List.not_mem_nil

/-- A pair in front changes nothing. -/
theorem balanced_cons_iff {events : List LockEvent} :
    Balanced (.lock l :: .unlock l :: events) ↔ Balanced events := by
  constructor
  · intro h
    cases h with
    | cons hlock hheld h =>
      cases hheld
      cases h with
      | cons hunlock hfree h =>
        cases (step_unlock_head l []).symm.trans hfree
        exact h
  · exact balanced_cons l

end Balance

section Defined

variable {tc tc' : ThreadCache} {cc cc' : CentralCache} {size count : Nat}
  {system : Option Addr}

/-- A list with a free span stays locked, and otherwise the page cache comes in between. -/
theorem getFreeSpan_locks {s : SpanId}
    (h : cc.getFreeSpan size system = some (cc', some s)) :
    ∃ events, Locks.getFreeSpan cc size system = some (events, cc', some s) ∧
      Balanced (.lock (.list (Size.sizeToIndex size)) ::
        (events ++ [.unlock (.list (Size.sizeToIndex size))])) := by
  unfold CentralCache.getFreeSpan at h
  unfold Locks.getFreeSpan
  obtain ⟨found, hfound, h⟩ := Option.bind_eq_some_iff.mp h
  simp only [hfound, Option.bind_eq_bind, Option.bind_some]
  cases found with
  | some t =>
    cases h
    exact ⟨[], rfl, balanced_cons _ (.nil [])⟩
  | none =>
    obtain ⟨⟨pc, span⟩, hfetch, h⟩ := Option.bind_eq_some_iff.mp h
    simp only [hfetch, Option.bind_some]
    cases span with
    | none => cases h
    | some t =>
      obtain ⟨a, ha, h⟩ := Option.bind_eq_some_iff.mp h
      cases h
      simp only [ha, Option.bind_some]
      refine ⟨_, rfl, ?_⟩
      exact balanced_cons _ (balanced_cons _ (balanced_cons _ (.nil [])))

theorem fetchRange_locks {objects : List Addr}
    (h : cc.fetchRange size count system = some (cc', objects)) :
    ∃ events, Locks.fetchRange cc size count system = some (events, cc', objects) ∧
      Balanced events := by
  obtain ⟨⟨cc₁, span⟩, hspan, h⟩ := Option.bind_eq_some_iff.mp h
  cases span with
  | none => cases h
  | some s =>
    obtain ⟨a, ha, h⟩ := Option.bind_eq_some_iff.mp h
    obtain ⟨⟨a', head⟩, hloop, h⟩ := Option.bind_eq_some_iff.mp h
    cases h
    obtain ⟨events, hrun, hbalanced⟩ := getFreeSpan_locks hspan
    refine ⟨_, ?_, hbalanced⟩
    unfold Locks.fetchRange
    simp only [hrun, ha, hloop, Option.bind_eq_bind, Option.bind_some]

theorem fetch_locks (h : tc.fetchFromCentralCache cc size system = some (cc', tc')) :
    ∃ events, Locks.fetchFromCentralCache tc cc size system = some (events, cc', tc') ∧
      Balanced events := by
  obtain ⟨⟨cc₁, objects⟩, hrange, h⟩ := Option.bind_eq_some_iff.mp h
  cases h
  obtain ⟨events, hrun, hbalanced⟩ := fetchRange_locks hrange
  refine ⟨events, ?_, hbalanced⟩
  unfold Locks.fetchFromCentralCache
  simp only [hrun, Option.bind_eq_bind, Option.bind_some]

/-- A size that the cache does not manage touches no lock. -/
theorem locksAllocate_unmanaged (hsize : ¬ ThreadCache.Managed size) :
    Locks.allocate tc cc size system =
      (tc.allocate cc size system).map fun r => ⟨[], r.1, r.2.1, some r.2.2⟩ := by
  unfold ThreadCache.Managed at hsize
  unfold Locks.allocate ThreadCache.allocate
  split
  · rfl
  · rw [if_pos (by omega), if_pos (by omega)]
    rfl

theorem locksAllocate_managed {c : Nat} (hsize : ThreadCache.Managed size)
    (hc : Size.sizeToIndex (Size.roundUp size) = c) :
    Locks.allocate tc cc size system =
      ((if (tc c).chain.isEmpty then
          Locks.fetchFromCentralCache tc cc (Size.roundUp size) system
        else some ([], cc, tc)).bind fun r => match (r.2.2 c).popFront with
          | none => some ⟨r.1, r.2.1, r.2.2, none⟩
          | some (object, list) =>
            some ⟨r.1, r.2.1, Function.update r.2.2 c list, some (.block object)⟩) := by
  unfold ThreadCache.Managed at hsize
  rw [Locks.allocate, if_neg (by omega), if_neg (by omega)]
  dsimp only
  rw [hc]
  split <;> rfl

/-- Where `allocate` is defined, it gives back its locks. -/
theorem allocate_locks {r : ThreadCache.Allocation}
    (h : tc.allocate cc size system = some (cc', tc', r)) :
    ∃ events, Locks.allocate tc cc size system = some ⟨events, cc', tc', some r⟩ ∧
      Balanced events := by
  by_cases hsize : ThreadCache.Managed size
  · rw [ThreadCache.allocate_managed tc cc system hsize rfl] at h
    obtain ⟨⟨cc₁, tc₁⟩, hfetch, h⟩ := Option.bind_eq_some_iff.mp h
    obtain ⟨⟨object, list⟩, hpop, h⟩ := Option.bind_eq_some_iff.mp h
    cases h
    rw [locksAllocate_managed hsize rfl]
    split at hfetch
    next hempty =>
      obtain ⟨events, hrun, hbalanced⟩ := fetch_locks hfetch
      refine ⟨events, ?_, hbalanced⟩
      rw [if_pos hempty, hrun, Option.bind_some, hpop]
    next hempty =>
      cases hfetch
      refine ⟨[], ?_, .nil []⟩
      rw [if_neg hempty, Option.bind_some, hpop]
  · refine ⟨[], ?_, .nil []⟩
    rw [locksAllocate_unmanaged hsize, h]
    rfl

end Defined

/-! ## A refused region -/

section Refused

variable {tc : ThreadCache} {cc : CentralCache} {size c : Nat}

/-- No free span is found where all spans of the list are used up. -/
theorem findFree_none {heap : SpanId → Option Span} {l : List SpanId}
    (h : ∀ s ∈ l, ∃ a, heap s = some a ∧ a.freeList.chain = []) :
    CentralCache.findFree heap l = some none := by
  induction l with
  | nil => rfl
  | cons s l ih =>
    obtain ⟨a, ha, hempty⟩ := h s List.mem_cons_self
    rw [CentralCache.findFree, ha]
    simp only [Option.bind_eq_bind, Option.bind_some]
    rw [if_pos (List.isEmpty_iff.mpr hempty)]
    exact ih fun t ht => h t (List.mem_cons_of_mem s ht)

/-- Without a free span of enough pages the page cache passes the refusal on. -/
theorem fetchSpan_none {pc : PageCache} {pages : Nat} (hpages : 1 ≤ pages)
    (hmax : pages ≤ maxPageNum)
    (h : ∀ i, pages - 1 ≤ i → i < maxPageNum → pc.spans i = []) :
    pc.fetchSpan pages none = some (pc, none) := by
  have hfind : ((List.range' pages (maxPageNum - pages)).find?
      fun i => !(pc.spans i).isEmpty) = none := by
    rw [List.find?_eq_none]
    intro i hi
    obtain ⟨hle, hlt⟩ := List.mem_range'_1.mp hi
    rw [h i (by omega) (by omega)]
    decide
  rw [PageCache.fetchSpan, h (pages - 1) (Nat.le_refl _) (by omega)]
  dsimp only
  rw [hfind]

/-- What `_GetFreeSpan` does to the locks when it comes back without a span. -/
def noSpanEvents (c : Nat) : List LockEvent :=
  [.unlock (.list c), .lock .pages, .unlock .pages]

/-- What `fetchRange` does to them then: it unlocks the list once more. -/
def refusedEvents (c : Nat) : List LockEvent :=
  .lock (.list c) :: (noSpanEvents c ++ [.unlock (.list c)])

/-- Unlocking a list twice is one time too often. -/
theorem not_balanced_refused (c : Nat) : ¬ Balanced (refusedEvents c) := by
  intro h
  have hrest : Balanced [.unlock (.list c)] :=
    (balanced_cons_iff _).mp ((balanced_cons_iff _).mp h)
  exact not_balanced_unlock _ _ hrest

theorem getFreeSpan_refused (hsize : ThreadCache.Managed size) (h : tc.NeedsRegion cc size)
    (hc : Size.sizeToIndex (Size.roundUp size) = c)
    (hheap : ∀ s ∈ cc.spans c, ∃ a, cc.pageCache.heap s = some a) :
    Locks.getFreeSpan cc (Size.roundUp size) none = some (noSpanEvents c, cc, none) := by
  obtain ⟨hindex, hround⟩ := Size.indexToSize_roundUp hsize.1 hsize.2
  obtain ⟨hmin, hmax⟩ := Size.indexToSize_bounds hindex
  rw [hround] at hmin hmax
  obtain ⟨hpages, hpagesMax, _⟩ := pageCountFor_bounds hmin hmax
  have hcentral := h.central
  rw [hc] at hcentral
  have hfree : CentralCache.findFree cc.pageCache.heap (cc.spans c) = some none := by
    apply findFree_none
    intro s hs
    obtain ⟨a, ha⟩ := hheap s hs
    exact ⟨a, ha, hcentral s hs a ha⟩
  unfold Locks.getFreeSpan
  simp only [hc, hfree, fetchSpan_none hpages hpagesMax h.pages, Option.bind_eq_bind,
    Option.bind_some]
  rfl

theorem fetchRange_refused (hc : Size.sizeToIndex size = c)
    (hspan : Locks.getFreeSpan cc size none = some (noSpanEvents c, cc, none)) (count : Nat) :
    Locks.fetchRange cc size count none = some (refusedEvents c, cc, []) := by
  unfold Locks.fetchRange
  simp only [hspan, hc, Option.bind_eq_bind, Option.bind_some]
  rfl

/-- The list is as empty as before, under a higher limit. -/
theorem fetch_refused (tc : ThreadCache) (hc : Size.sizeToIndex size = c)
    (hspan : Locks.getFreeSpan cc size none = some (noSpanEvents c, cc, none)) :
    ∃ maxSize, Locks.fetchFromCentralCache tc cc size none =
      some (refusedEvents c, cc, Function.update tc c ((tc c).setMaxSize maxSize)) := by
  refine ⟨(if (tc c).maxSize > maxBlockNum then maxBlockNum else (tc c).maxSize) + 1, ?_⟩
  unfold Locks.fetchFromCentralCache
  simp only [hc, fetchRange_refused hc hspan, Option.bind_eq_bind, Option.bind_some,
    List.foldl_nil]

/-- The list is unlocked by `_GetFreeSpan` and by `fetchRange`, and the empty list is
popped. -/
theorem allocate_refused (hsize : ThreadCache.Managed size) (h : tc.NeedsRegion cc size)
    (hc : Size.sizeToIndex (Size.roundUp size) = c)
    (hheap : ∀ s ∈ cc.spans c, ∃ a, cc.pageCache.heap s = some a) :
    ∃ a, Locks.allocate tc cc size none = some a ∧ a.result = none ∧ a.centralCache = cc ∧
      (∀ d, (a.threadCache d).chain = (tc d).chain) ∧ a.events = refusedEvents c := by
  have hempty := h.thread
  rw [hc] at hempty
  obtain ⟨maxSize, hfetch⟩ := fetch_refused tc hc (getFreeSpan_refused hsize h hc hheap)
  have hpop : ((tc c).setMaxSize maxSize).popFront = none := by
    rw [FreeList.popFront, FreeList.setMaxSize, hempty]
  refine ⟨⟨refusedEvents c, cc, Function.update tc c ((tc c).setMaxSize maxSize), none⟩, ?_, rfl,
    rfl, ?_, rfl⟩
  · rw [locksAllocate_managed hsize hc, if_pos (List.isEmpty_iff.mpr hempty), hfetch,
      Option.bind_some]
    dsimp only
    rw [Function.update_self, hpop]
  · intro d
    show (Function.update tc c ((tc c).setMaxSize maxSize) d).chain = (tc d).chain
    by_cases hd : d = c
    · rw [hd, Function.update_self]
      rfl
    · rw [Function.update_of_ne hd]

/-! ### A region that is not needed -/

/-- Where a free span of enough pages is there, the system is not asked. -/
theorem fetchSpan_system {pc : PageCache} {pages i : Nat} (hi : pages - 1 ≤ i)
    (hmax : i < maxPageNum) (hspan : pc.spans i ≠ []) (system system' : Option Addr) :
    pc.fetchSpan pages system = pc.fetchSpan pages system' := by
  unfold PageCache.fetchSpan
  cases hexact : pc.spans (pages - 1) with
  | cons s rest => rfl
  | nil =>
    have hne : i ≠ pages - 1 := by
      rintro rfl
      exact hspan hexact
    cases hfind : (List.range' pages (maxPageNum - pages)).find? fun i => !(pc.spans i).isEmpty with
    | some j => rfl
    | none =>
      have hempty := List.find?_eq_none.mp hfind i (List.mem_range'_1.mpr (by omega))
      simp only [Bool.not_eq_true', Bool.not_eq_false, List.isEmpty_iff] at hempty
      exact absurd hempty hspan

/-- Spans among which no free one is found are used up. -/
theorem chain_of_findFree_none {heap : SpanId → Option Span} {l : List SpanId}
    (h : CentralCache.findFree heap l = some none) :
    ∀ s ∈ l, ∀ a, heap s = some a → a.freeList.chain = [] := by
  induction l with
  | nil => exact fun s hs => absurd hs List.not_mem_nil
  | cons s l ih =>
    obtain ⟨a, ha, h⟩ := Option.bind_eq_some_iff.mp h
    split at h
    next hempty =>
      intro t ht b hb
      rcases List.mem_cons.mp ht with rfl | ht
      · cases ha.symm.trans hb
        exact List.isEmpty_iff.mp hempty
      · exact ih h t ht b hb
    next => cases h

/-- An allocation that needs no region does not depend on what the system returns. -/
theorem allocate_system (h : ¬ tc.NeedsRegion cc size) (system system' : Option Addr) :
    tc.allocate cc size system = tc.allocate cc size system' := by
  by_cases hsize : ThreadCache.Managed size
  · obtain ⟨c, hc⟩ : ∃ c, Size.sizeToIndex (Size.roundUp size) = c := ⟨_, rfl⟩
    rw [ThreadCache.allocate_managed tc cc system hsize hc,
      ThreadCache.allocate_managed tc cc system' hsize hc]
    by_cases hempty : (tc c).chain.isEmpty = true
    · have hspan : cc.getFreeSpan (Size.roundUp size) system =
          cc.getFreeSpan (Size.roundUp size) system' := by
        unfold CentralCache.getFreeSpan
        simp only [hc, Option.bind_eq_bind]
        cases hfind : CentralCache.findFree cc.pageCache.heap (cc.spans c) with
        | none => rfl
        | some found =>
          cases found with
          | some s => rfl
          | none =>
            have hroom : ∃ i, CentralCache.pageCountFor (Size.roundUp size) - 1 ≤ i ∧
                i < maxPageNum ∧ cc.pageCache.spans i ≠ [] := by
              by_contra hnone
              apply h
              rw [← hc] at hempty hfind
              refine ⟨List.isEmpty_iff.mp hempty, chain_of_findFree_none hfind, ?_⟩
              intro i hi hmax
              by_contra hne
              exact hnone ⟨i, hi, hmax, hne⟩
            obtain ⟨i, hi, hmax, hne⟩ := hroom
            simp only [Option.bind_some]
            rw [fetchSpan_system hi hmax hne system system']
      rw [if_pos hempty, if_pos hempty]
      unfold ThreadCache.fetchFromCentralCache CentralCache.fetchRange
      rw [hspan]
    · rw [if_neg hempty, if_neg hempty]
  · rw [ThreadCache.allocate, ThreadCache.allocate]
    unfold ThreadCache.Managed at hsize
    split
    · rfl
    · rw [if_pos (by omega), if_pos (by omega)]

end Refused

namespace MemoryPool

/-- In every pool that can be reached, an allocation that needs a region and does not get it
unlocks the list of its class twice and pops an empty free list.  The blocks and the spans
stay where they are. -/
theorem refusal_not_clean (ops : List PoolOp) (mp : MemoryPool)
    (hr : Transition.Run step Ok init ops mp) (tc : ThreadCache) (size : Nat) (hsize : 1 ≤ size)
    (hmax : size ≤ maxMemorySize) (hneeds : tc.NeedsRegion mp.centralCache size) :
    ∃ a, Locks.allocate tc mp.centralCache size none = some a ∧
      ¬ a.FailsCleanly tc mp.centralCache ∧ a.result = none ∧ ¬ Balanced a.events ∧
      a.centralCache = mp.centralCache ∧ ∀ c, (a.threadCache c).chain = (tc c).chain := by
  obtain ⟨kind, loc, h⟩ := Inv.of_run hr
  obtain ⟨a, hrun, hresult, hcentral, hthread, hevents⟩ :=
    allocate_refused ⟨hsize, hmax⟩ hneeds rfl fun s hs => (h.calm.inv.span hs).2
  refine ⟨a, hrun, fun hclean => ?_, hresult, ?_, hcentral, hthread⟩
  · have hnull := hclean.nullptr
    rw [hresult] at hnull
    cases hnull
  · rw [hevents]
    exact not_balanced_refused _

/-- In a fresh pool every size needs a region. -/
theorem needsRegion_init (size : Nat) :
    ThreadCache.init.NeedsRegion CentralCache.init size where
  thread := rfl
  central := fun _ hs => absurd hs List.not_mem_nil
  pages := fun _ _ _ => rfl

theorem run_create : Transition.Run step Ok init [.create 0]
    { init with threadCaches := Function.update init.threadCaches 0 (some ThreadCache.init) } :=
  .cons rfl rfl (.nil _)

/-- The first allocation of a thread, for one byte. -/
theorem refusal_not_clean_fresh : ∃ a,
    Locks.allocate ThreadCache.init CentralCache.init 1 none = some a ∧ a.result = none ∧
      ¬ Balanced a.events := by
  obtain ⟨a, hrun, _, hresult, hbalanced, _⟩ := refusal_not_clean _ _ run_create
    ThreadCache.init 1 (by decide) (by decide) (needsRegion_init 1)
  exact ⟨a, hrun, hresult, hbalanced⟩

/-- The pool of one thread that has allocated nothing does not fail cleanly. -/
theorem not_failsCleanly_fresh : ∃ mp tc a, Transition.Run step Ok init [.create 0] mp ∧
    mp.threadCaches 0 = some tc ∧ tc.NeedsRegion mp.centralCache 1 ∧
      Locks.allocate tc mp.centralCache 1 none = some a ∧
      ¬ a.FailsCleanly tc mp.centralCache := by
  have hsize : ThreadCache.Managed 1 := ⟨by decide, by decide⟩
  obtain ⟨a, hrun, hresult, _⟩ := allocate_refused hsize (needsRegion_init 1) rfl
    fun s hs => absurd hs List.not_mem_nil
  refine ⟨_, ThreadCache.init, a, run_create, rfl, needsRegion_init 1, hrun, ?_⟩
  intro hclean
  cases hresult.symm.trans hclean.nullptr

end MemoryPool

end Pool

end WWRaftKV
