/-
The free lists of the thread caches with their sizes.

A free list keeps its size in a counter of its own.  The caches over lists that count are
those of `ThreadCache` with the counter read where the source calls `size`, and as long as
every counter is the length of its chain, the two take the same steps.  The fetches and
returns are parts of `allocate` and `deallocate`.  A fetch meets an empty list and brings at
most its limit, which it raises, and a return leaves one limit at most, so that the length of
a list stays below twice its limit.
-/
import WWRaftKV.Pool.Accounts

namespace WWRaftKV

namespace Pool

/-! ## Lists that count -/

/-- A `FreeList` with its own `_Size`. -/
structure CountedList where
  chain : List Addr
  size : UInt64
  maxSize : Nat

namespace CountedList

def new : CountedList := { chain := [], size := 0, maxSize := 1 }

def pushFront (l : CountedList) (object : Addr) : CountedList :=
  { l with chain := object :: l.chain, size := l.size + 1 }

/-- `front` and `pop_front`.  On an empty list `pop_front` reads through a null pointer. -/
def popFront (l : CountedList) : Option (Addr × CountedList) :=
  match l.chain with
  | [] => none
  | object :: rest => some (object, { l with chain := rest, size := l.size - 1 })

def setMaxSize (l : CountedList) (maxSize : Nat) : CountedList := { l with maxSize := maxSize }

end CountedList

/-- `_Free_lists`. -/
abbrev CountedCache := Nat → CountedList

namespace CountedCache

def init : CountedCache := fun _ => CountedList.new

/-- `_FetchFromCentralCache`. -/
def fetchFromCentralCache (tc : CountedCache) (cc : CentralCache) (size : Nat)
    (system : Option Addr) : Option (CentralCache × CountedCache) := do
  let index := Size.sizeToIndex size
  let list := tc index
  let count := if list.maxSize > maxBlockNum then maxBlockNum else list.maxSize
  let (cc, objects) ← cc.fetchRange size count system
  let list := objects.foldl CountedList.pushFront list
  some (cc, Function.update tc index (list.setMaxSize (count + 1)))

/-- The loop of `_ReturnToCentralCache`. -/
def takeLoop : Nat → CountedList → List Addr → Option (CountedList × List Addr)
  | 0, list, head => some (list, head)
  | nums + 1, list, head => do
    let (object, list) ← list.popFront
    takeLoop nums list (object :: head)

/-- `_ReturnToCentralCache`. -/
def returnToCentralCache (tc : CountedCache) (cc : CentralCache) (index nums : Nat) :
    Option (CentralCache × CountedCache) := do
  let (list, head) ← takeLoop nums (tc index) []
  let cc ← cc.returnRange (Size.indexToSize index) head
  some (cc, Function.update tc index list)

/-- `_ShouldReturn`. -/
def shouldReturn (tc : CountedCache) (index : Nat) : Bool :=
  (tc index).size.toNat ≥ (tc index).maxSize * 2

/-- `allocate`. -/
def allocate (tc : CountedCache) (cc : CentralCache) (size : Nat) (system : Option Addr) :
    Option (CentralCache × CountedCache × ThreadCache.Allocation) :=
  if size = 0 then some (cc, tc, .nullptr)
  else if size > maxMemorySize then some (cc, tc, .heap)
  else do
    let roundSize := Size.roundUp size
    let index := Size.sizeToIndex roundSize
    let (cc, tc) ← if (tc index).chain.isEmpty then
        tc.fetchFromCentralCache cc roundSize system
      else some (cc, tc)
    let (object, list) ← (tc index).popFront
    some (cc, Function.update tc index list, .block object)

/-- `deallocate`. -/
def deallocate (tc : CountedCache) (cc : CentralCache) (p : Addr) (size : Nat) :
    Option (CentralCache × CountedCache) :=
  if size = 0 then some (cc, tc)
  else if size > maxMemorySize then some (cc, tc)
  else
    let index := Size.sizeToIndex (Size.roundUp size)
    let tc : CountedCache := Function.update tc index ((tc index).pushFront p)
    if tc.shouldReturn index then tc.returnToCentralCache cc index (tc index).maxSize
    else some (cc, tc)

/-- The loop of the destructor. -/
def drainLoop : List Nat → CountedCache → CentralCache → Option CentralCache
  | [], _, cc => some cc
  | index :: rest, tc, cc =>
    if (tc index).chain.isEmpty then drainLoop rest tc cc
    else do
      let (cc, tc) ← tc.returnToCentralCache cc index (tc index).size.toNat
      drainLoop rest tc cc

/-- `~ThreadCache`. -/
def destroy (tc : CountedCache) (cc : CentralCache) : Option CentralCache :=
  drainLoop (List.range maxArraySize) tc cc

end CountedCache

/-! ## Lists below their limits -/

namespace FreeList

/-- The list is shorter than what is returned at, and its limit is bounded. -/
structure Bounded (l : FreeList) : Prop where
  short : l.chain.length < 2 * l.maxSize
  limit : l.maxSize ≤ maxBlockNum + 1

theorem new_bounded : FreeList.new.Bounded := ⟨by decide, by decide⟩

variable {l l' : FreeList}

/-- A shorter list under the same limit. -/
theorem Bounded.shorter (h : l.Bounded) (hle : l'.chain.length ≤ l.chain.length)
    (hmax : l'.maxSize = l.maxSize) : l'.Bounded where
  short := by
    rw [hmax]
    exact Nat.lt_of_le_of_lt hle h.short
  limit := by
    rw [hmax]
    exact h.limit

/-- There is room for one block more. -/
theorem Bounded.length_lt (h : l.Bounded) : l.chain.length < 2 * (maxBlockNum + 1) := by
  have hshort := h.short
  have hlimit := h.limit
  omega

/-- Only a list that is not empty can be popped. -/
theorem of_popFront {p : Addr} (h : l.popFront = some (p, l')) :
    l.chain = p :: l'.chain ∧ l'.maxSize = l.maxSize := by
  unfold popFront at h
  split at h
  · cases h
  next hchain =>
    cases h
    exact ⟨hchain, rfl⟩

theorem Bounded.popFront {p : Addr} (h : l.Bounded) (hp : l.popFront = some (p, l')) :
    l'.Bounded := by
  obtain ⟨hchain, hmax⟩ := of_popFront hp
  apply h.shorter _ hmax
  rw [hchain, List.length_cons]
  omega

end FreeList

namespace ThreadCache

/-- All lists of the cache are below their limits. -/
def Bounded (tc : ThreadCache) : Prop := ∀ c, (tc c).Bounded

section Bounds

variable {tc tc' : ThreadCache} {cc cc' : CentralCache} {size count c : Nat}
  {system : Option Addr}

theorem init_bounded : init.Bounded := fun _ => FreeList.new_bounded

theorem Bounded.update (h : tc.Bounded) {l : FreeList} (hl : l.Bounded) :
    Bounded (Function.update tc c l) := by
  intro d
  by_cases hd : d = c
  · rw [hd, Function.update_self]
    exact hl
  · rw [Function.update_of_ne hd]
    exact h d

/-- No more blocks are taken than asked for. -/
theorem fetchLoop_length {a a' : Span} {head out : List Addr}
    (h : CentralCache.fetchLoop count a head = some (a', out)) :
    out.length ≤ head.length + count := by
  induction count generalizing a head with
  | zero =>
    cases h
    exact Nat.le_refl _
  | succ count ih =>
    rw [CentralCache.fetchLoop] at h
    obtain ⟨⟨object, freeList⟩, -, h⟩ := Option.bind_eq_some_iff.mp h
    dsimp only at h
    split at h
    · cases h
      rw [List.length_cons]
      omega
    · have hrest := ih h
      rw [List.length_cons] at hrest
      omega

theorem fetchRange_length {objects : List Addr}
    (h : cc.fetchRange size count system = some (cc', objects)) : objects.length ≤ count := by
  obtain ⟨⟨cc₁, span⟩, -, h⟩ := Option.bind_eq_some_iff.mp h
  cases span with
  | none => cases h
  | some s =>
    obtain ⟨a, -, h⟩ := Option.bind_eq_some_iff.mp h
    obtain ⟨⟨a', head⟩, hloop, h⟩ := Option.bind_eq_some_iff.mp h
    cases h
    have hlen := fetchLoop_length hloop
    rwa [List.length_nil, Nat.zero_add] at hlen

/-- A batch into an empty list stays below the new limit. -/
theorem fetch_bounded (h : tc.Bounded) (hempty : (tc (Size.sizeToIndex size)).chain = [])
    (hf : tc.fetchFromCentralCache cc size system = some (cc', tc')) : tc'.Bounded := by
  obtain ⟨⟨cc₁, objects⟩, hrange, hf⟩ := Option.bind_eq_some_iff.mp hf
  cases hf
  have hlen := fetchRange_length hrange
  obtain ⟨count, hcount⟩ : ∃ count, count = if (tc (Size.sizeToIndex size)).maxSize > maxBlockNum
      then maxBlockNum else (tc (Size.sizeToIndex size)).maxSize := ⟨_, rfl⟩
  rw [← hcount] at hlen ⊢
  have hmax : count ≤ maxBlockNum := by
    rw [hcount]
    split <;> omega
  apply h.update
  rw [foldl_pushFront, hempty, List.append_nil]
  constructor
  · show objects.reverse.length < 2 * (count + 1)
    rw [List.length_reverse]
    omega
  · show count + 1 ≤ maxBlockNum + 1
    omega

theorem allocate_bounded {r : Allocation} (h : tc.Bounded)
    (ha : tc.allocate cc size system = some (cc', tc', r)) : tc'.Bounded := by
  by_cases hsize : Managed size
  · rw [allocate_managed tc cc system hsize rfl] at ha
    obtain ⟨⟨cc₁, tc₁⟩, hfetch, ha⟩ := Option.bind_eq_some_iff.mp ha
    obtain ⟨⟨object, list⟩, hpop, ha⟩ := Option.bind_eq_some_iff.mp ha
    cases ha
    have h₁ : tc₁.Bounded := by
      split at hfetch
      next hempty => exact fetch_bounded h (List.isEmpty_iff.mp hempty) hfetch
      next =>
        cases hfetch
        exact h
    exact h₁.update ((h₁ _).popFront hpop)
  · obtain ⟨_, heq, _⟩ := allocate_unmanaged tc cc system hsize
    rw [heq] at ha
    cases ha
    exact h

/-- The loop takes as many blocks as it is told to. -/
theorem takeLoop_rest {nums : Nat} {l l' : FreeList} {head out : List Addr}
    (h : takeLoop nums l head = some (l', out)) :
    l'.chain.length + nums = l.chain.length ∧ l'.maxSize = l.maxSize := by
  induction nums generalizing l head with
  | zero =>
    cases h
    exact ⟨rfl, rfl⟩
  | succ nums ih =>
    rw [takeLoop] at h
    obtain ⟨⟨object, rest⟩, hpop, h⟩ := Option.bind_eq_some_iff.mp h
    obtain ⟨hlen, hmax⟩ := ih h
    obtain ⟨hchain, hsame⟩ := FreeList.of_popFront hpop
    rw [hchain, List.length_cons, ← hlen]
    exact ⟨rfl, hmax.trans hsame⟩

/-- The list is shorter by what is returned, and its limit stays. -/
theorem return_update {nums : Nat} (hr : tc.returnToCentralCache cc c nums = some (cc', tc')) :
    ∃ l, tc' = Function.update tc c l ∧ l.chain.length + nums = (tc c).chain.length ∧
      l.maxSize = (tc c).maxSize := by
  obtain ⟨⟨l, head⟩, hloop, hr⟩ := Option.bind_eq_some_iff.mp hr
  obtain ⟨cc₁, _, hr⟩ := Option.bind_eq_some_iff.mp hr
  cases hr
  exact ⟨l, rfl, takeLoop_rest hloop⟩

theorem deallocate_bounded {p : Addr} (h : tc.Bounded)
    (hd : tc.deallocate cc p size = some (cc', tc')) : tc'.Bounded := by
  by_cases hsize : Managed size
  · obtain ⟨c, hc⟩ : ∃ c, Size.sizeToIndex (Size.roundUp size) = c := ⟨_, rfl⟩
    obtain ⟨tc₁, htc₁⟩ : ∃ tc₁, tc₁ = Function.update tc c ((tc c).pushFront p) := ⟨_, rfl⟩
    rw [deallocate_managed tc cc p hsize hc htc₁] at hd
    have hlist : tc₁ c = (tc c).pushFront p := by rw [htc₁, Function.update_self]
    have hshort : ((tc c).pushFront p).chain.length ≤ 2 * ((tc c).pushFront p).maxSize :=
      (h c).short
    have hlimit : ((tc c).pushFront p).maxSize ≤ maxBlockNum + 1 := (h c).limit
    split at hd
    next hreturn =>
      -- twice the limit is reached, and one limit is taken off
      have hge : (tc₁ c).chain.length ≥ (tc₁ c).maxSize * 2 := of_decide_eq_true hreturn
      have hpos := (h c).short
      obtain ⟨l, rfl, hlen, hmax⟩ := return_update hd
      rw [hlist] at hge hlen hmax
      rw [htc₁, Function.update_idem]
      have hold : ((tc c).pushFront p).maxSize = (tc c).maxSize := rfl
      exact h.update ⟨by omega, by omega⟩
    next hkeep =>
      have hlt : ¬ (tc₁ c).chain.length ≥ (tc₁ c).maxSize * 2 := fun hge =>
        hkeep (decide_eq_true hge)
      rw [hlist] at hlt
      cases hd
      rw [htc₁]
      exact h.update ⟨by omega, hlimit⟩
  · rw [deallocate_unmanaged tc cc p hsize] at hd
    cases hd
    exact h

end Bounds

end ThreadCache

/-! ## The counter is the length -/

/-- The list with a counter that is right. -/
def FreeList.counted (l : FreeList) : CountedList where
  chain := l.chain
  size := UInt64.ofNat l.chain.length
  maxSize := l.maxSize

namespace FreeList

@[simp] theorem counted_chain (l : FreeList) : l.counted.chain = l.chain := rfl

theorem counted_pushFront (l : FreeList) (p : Addr) :
    l.counted.pushFront p = (l.pushFront p).counted := by
  show CountedList.mk _ _ _ = CountedList.mk _ _ _
  congr 1
  exact (UInt64.ofNat_add ..).symm

theorem counted_foldl (xs : List Addr) (l : FreeList) :
    xs.foldl CountedList.pushFront l.counted = (xs.foldl pushFront l).counted := by
  induction xs generalizing l with
  | nil => rfl
  | cons x xs ih => rw [List.foldl_cons, List.foldl_cons, counted_pushFront, ih]

theorem counted_popFront (l : FreeList) :
    l.counted.popFront = l.popFront.map fun r => (r.1, r.2.counted) := by
  obtain ⟨chain, maxSize⟩ := l
  cases chain with
  | nil => rfl
  | cons p rest =>
    have hsize : UInt64.ofNat (p :: rest).length - 1 = UInt64.ofNat rest.length := by
      rw [List.length_cons, UInt64.ofNat_add]
      exact UInt64.add_sub_cancel ..
    show some (p, CountedList.mk rest (UInt64.ofNat (p :: rest).length - 1) maxSize) =
      some (p, CountedList.mk rest (UInt64.ofNat rest.length) maxSize)
    rw [hsize]

/-- The counter of a short list has not wrapped. -/
theorem counted_size {l : FreeList} (h : l.chain.length ≤ 2 * (maxBlockNum + 1)) :
    l.counted.size.toNat = l.chain.length := by
  have hmax : 2 * (maxBlockNum + 1) = 1026 := rfl
  rw [counted, UInt64.toNat_ofNat']
  exact Nat.mod_eq_of_lt (by omega)

end FreeList

namespace ThreadCache

def counted (tc : ThreadCache) : CountedCache := fun c => (tc c).counted

section Counted

variable {tc : ThreadCache} {cc : CentralCache}

@[simp] theorem counted_apply (tc : ThreadCache) (c : Nat) : tc.counted c = (tc c).counted := rfl

theorem counted_update (tc : ThreadCache) (c : Nat) (l : FreeList) :
    counted (Function.update tc c l) = Function.update tc.counted c l.counted := by
  funext d
  by_cases hd : d = c
  · rw [hd, counted, Function.update_self, Function.update_self]
  · rw [counted, Function.update_of_ne hd, Function.update_of_ne hd, counted]

theorem counted_fetch (tc : ThreadCache) (cc : CentralCache) (size : Nat)
    (system : Option Addr) : tc.counted.fetchFromCentralCache cc size system =
      (tc.fetchFromCentralCache cc size system).map fun r => (r.1, r.2.counted) := by
  unfold CountedCache.fetchFromCentralCache fetchFromCentralCache
  dsimp only
  obtain ⟨c, hc⟩ : ∃ c, Size.sizeToIndex size = c := ⟨_, rfl⟩
  rw [hc]
  obtain ⟨count, hcount⟩ : ∃ count,
      (if (tc c).maxSize > maxBlockNum then maxBlockNum else (tc c).maxSize) = count := ⟨_, rfl⟩
  have hcount' : (if (tc.counted c).maxSize > maxBlockNum then maxBlockNum
      else (tc.counted c).maxSize) = count := hcount
  rw [hcount, hcount']
  cases cc.fetchRange size count system with
  | none => rfl
  | some r =>
    simp only [Option.bind_eq_bind, Option.bind_some, Option.map_some, counted_apply,
      counted_update, FreeList.counted_foldl]
    rfl

theorem counted_takeLoop (nums : Nat) (l : FreeList) (head : List Addr) :
    CountedCache.takeLoop nums l.counted head =
      (takeLoop nums l head).map fun r => (r.1.counted, r.2) := by
  induction nums generalizing l head with
  | zero => rfl
  | succ nums ih =>
    rw [CountedCache.takeLoop, takeLoop, FreeList.counted_popFront]
    cases l.popFront with
    | none => rfl
    | some r => exact ih r.2 (r.1 :: head)

theorem counted_return (tc : ThreadCache) (cc : CentralCache) (c nums : Nat) :
    tc.counted.returnToCentralCache cc c nums =
      (tc.returnToCentralCache cc c nums).map fun r => (r.1, r.2.counted) := by
  rw [CountedCache.returnToCentralCache, returnToCentralCache, counted_apply, counted_takeLoop]
  cases takeLoop nums (tc c) [] with
  | none => rfl
  | some r =>
    simp only [Option.bind_eq_bind, Option.bind_some, Option.map_some]
    cases cc.returnRange (Size.indexToSize c) r.2 with
    | none => rfl
    | some cc' =>
      simp only [Option.bind_some, Option.map_some, counted_update]

theorem counted_pop (tc : ThreadCache) (cc : CentralCache) (c : Nat) :
    ((tc.counted c).popFront.bind fun q =>
        some (cc, Function.update tc.counted c q.2, Allocation.block q.1)) =
      ((tc c).popFront.bind fun q =>
        some (cc, Function.update tc c q.2, Allocation.block q.1)).map
          fun r => (r.1, counted r.2.1, r.2.2) := by
  rw [counted_apply, FreeList.counted_popFront]
  cases (tc c).popFront with
  | none => rfl
  | some q => simp only [Option.bind_some, Option.map_some, counted_update]

theorem counted_allocate (tc : ThreadCache) (cc : CentralCache) (size : Nat)
    (system : Option Addr) : tc.counted.allocate cc size system =
      (tc.allocate cc size system).map fun r => (r.1, r.2.1.counted, r.2.2) := by
  unfold CountedCache.allocate allocate
  split
  · rfl
  split
  · rfl
  dsimp only
  rw [counted_apply, FreeList.counted_chain]
  split
  · rw [counted_fetch]
    cases tc.fetchFromCentralCache cc (Size.roundUp size) system with
    | none => rfl
    | some r => exact counted_pop r.2 r.1 _
  · exact counted_pop tc cc _

theorem counted_deallocate (h : tc.Bounded) (cc : CentralCache) (p : Addr) (size : Nat) :
    tc.counted.deallocate cc p size =
      (tc.deallocate cc p size).map fun r => (r.1, r.2.counted) := by
  unfold CountedCache.deallocate deallocate
  split
  · rfl
  split
  · rfl
  dsimp only
  obtain ⟨c, hc⟩ : ∃ c, Size.sizeToIndex (Size.roundUp size) = c := ⟨_, rfl⟩
  rw [hc, counted_apply, FreeList.counted_pushFront, ← counted_update]
  obtain ⟨tc₁, htc₁⟩ : ∃ tc₁ : ThreadCache, Function.update tc c ((tc c).pushFront p) = tc₁ :=
    ⟨_, rfl⟩
  rw [htc₁]
  have hshould : tc₁.counted.shouldReturn c = tc₁.shouldReturn c := by
    have hlen : (tc₁ c).chain.length ≤ 2 * (maxBlockNum + 1) := by
      rw [← htc₁, Function.update_self]
      exact (h c).length_lt
    unfold CountedCache.shouldReturn shouldReturn
    rw [counted_apply, FreeList.counted_size hlen]
    rfl
  rw [hshould]
  split
  · exact counted_return ..
  · rfl

theorem counted_drainLoop {cs : List Nat} (h : tc.Bounded) :
    CountedCache.drainLoop cs tc.counted cc = drainLoop cs tc cc := by
  induction cs generalizing tc cc with
  | nil => rfl
  | cons c cs ih =>
    rw [CountedCache.drainLoop, drainLoop]
    have hsize : (tc c).counted.size.toNat = (tc c).size :=
      FreeList.counted_size (Nat.le_of_lt (h c).length_lt)
    rw [counted_apply, FreeList.counted_chain, hsize, counted_return]
    split
    · exact ih h
    · cases hr : tc.returnToCentralCache cc c (tc c).size with
      | none => rfl
      | some r =>
        obtain ⟨l, hl, hlen, hmax⟩ := return_update hr
        simp only [Option.bind_eq_bind, Option.bind_some, Option.map_some]
        apply ih
        rw [hl]
        exact h.update ((h c).shorter (by omega) hmax)

end Counted

end ThreadCache

/-! ## The pool over counted lists -/

/-- `MemoryPool` with thread caches whose lists count. -/
structure CountedPool where
  centralCache : CentralCache
  threadCaches : Nat → Option CountedCache
  live : List (Addr × Nat)

namespace CountedPool

def init : CountedPool where
  centralCache := CentralCache.init
  threadCaches := fun _ => none
  live := []

def step (mp : CountedPool) : PoolOp → Option CountedPool
  | .create thread =>
    some { mp with threadCaches := Function.update mp.threadCaches thread (some CountedCache.init) }
  | .allocate thread size system => do
    let tc ← mp.threadCaches thread
    let (cc, tc, result) ← tc.allocate mp.centralCache size (some system)
    let live := match result with
      | .block p => (p, size) :: mp.live
      | _ => mp.live
    some
      { centralCache := cc
        threadCaches := Function.update mp.threadCaches thread (some tc)
        live := live }
  | .deallocate thread p size => do
    let tc ← mp.threadCaches thread
    let (cc, tc) ← tc.deallocate mp.centralCache p size
    some
      { centralCache := cc
        threadCaches := Function.update mp.threadCaches thread (some tc)
        live := mp.live.erase (p, size) }
  | .destroy thread => do
    let tc ← mp.threadCaches thread
    let cc ← tc.destroy mp.centralCache
    some { mp with
      centralCache := cc
      threadCaches := Function.update mp.threadCaches thread none }

/-- What the callers and the system keep to.  A size that the caches do not manage is
allowed, and it asks nothing of the system or of the block. -/
def Ok (mp : CountedPool) : PoolOp → Prop
  | .create thread => (mp.threadCaches thread).isNone
  | .allocate thread size system => (mp.threadCaches thread).isSome ∧
      (ThreadCache.Managed size → mp.centralCache.pageCache.FreshRegion system)
  | .deallocate thread p size =>
    (mp.threadCaches thread).isSome ∧ (ThreadCache.Managed size → (p, size) ∈ mp.live)
  | .destroy thread => (mp.threadCaches thread).isSome

end CountedPool

namespace MemoryPool

/-- The pool with counters that are right. -/
def counted (mp : MemoryPool) : CountedPool where
  centralCache := mp.centralCache
  threadCaches := fun t => (mp.threadCaches t).map ThreadCache.counted
  live := mp.live

def Bounded (mp : MemoryPool) : Prop := ∀ t tc, mp.threadCaches t = some tc → tc.Bounded

section Counted

variable {mp mp' : MemoryPool} {kind : SpanId → Kind} {loc : Addr → Place} {op : PoolOp}

theorem counted_update (caches : Nat → Option ThreadCache) (t : Nat) (tc : Option ThreadCache) :
    (fun u => (Function.update caches t tc u).map ThreadCache.counted) =
      Function.update (fun u => (caches u).map ThreadCache.counted) t
        (tc.map ThreadCache.counted) := by
  funext u
  by_cases hu : u = t
  · rw [hu, Function.update_self, Function.update_self]
  · rw [Function.update_of_ne hu, Function.update_of_ne hu]

/-- With short lists the pool that counts takes the same steps. -/
theorem step_counted (h : mp.Bounded) (op : PoolOp) :
    mp.counted.step op = (mp.step op).map counted := by
  have hcache : ∀ t, mp.counted.threadCaches t = (mp.threadCaches t).map ThreadCache.counted :=
    fun _ => rfl
  cases op with
  | create thread =>
    simp only [CountedPool.step, step, counted, Option.map_some, counted_update]
    rfl
  | allocate thread size system =>
    simp only [CountedPool.step, step, Option.bind_eq_bind]
    rw [hcache]
    cases htc : mp.threadCaches thread with
    | none => rfl
    | some tc =>
      simp only [Option.map_some, Option.bind_some]
      rw [show mp.counted.centralCache = mp.centralCache from rfl, ThreadCache.counted_allocate]
      cases tc.allocate mp.centralCache size (some system) with
      | none => rfl
      | some r =>
        obtain ⟨_, _, result⟩ := r
        cases result <;> simp only [Option.map_some, Option.bind_some, counted, counted_update]
  | deallocate thread p size =>
    simp only [CountedPool.step, step, Option.bind_eq_bind]
    rw [hcache]
    cases htc : mp.threadCaches thread with
    | none => rfl
    | some tc =>
      simp only [Option.map_some, Option.bind_some]
      rw [show mp.counted.centralCache = mp.centralCache from rfl,
        ThreadCache.counted_deallocate (h thread tc htc)]
      cases tc.deallocate mp.centralCache p size with
      | none => rfl
      | some r => simp only [Option.map_some, Option.bind_some, counted, counted_update]
  | destroy thread =>
    simp only [CountedPool.step, step, Option.bind_eq_bind]
    rw [hcache]
    cases htc : mp.threadCaches thread with
    | none => rfl
    | some tc =>
      simp only [Option.map_some, Option.bind_some]
      rw [show tc.counted.destroy mp.counted.centralCache = tc.destroy mp.centralCache from
        ThreadCache.counted_drainLoop (h thread tc htc)]
      cases tc.destroy mp.centralCache with
      | none => rfl
      | some cc =>
        simp only [Option.map_some, Option.bind_some, counted, counted_update, Option.map_none]

theorem init_bounded : init.Bounded := by
  intro t tc ht
  cases ht

theorem Bounded.update (h : mp.Bounded) {thread : Nat} {tc : ThreadCache} (htc : tc.Bounded)
    {t : Nat} {tc' : ThreadCache}
    (ht : Function.update mp.threadCaches thread (some tc) t = some tc') : tc'.Bounded := by
  by_cases htt : t = thread
  · rw [htt, Function.update_self] at ht
    cases ht
    exact htc
  · rw [Function.update_of_ne htt] at ht
    exact h t tc' ht

theorem Bounded.step (h : mp.Bounded) (hst : mp.step op = some mp') : mp'.Bounded := by
  cases op with
  | create thread =>
    cases hst
    intro t tc ht
    exact h.update ThreadCache.init_bounded ht
  | allocate thread size system =>
    obtain ⟨tc, htc, hst⟩ := Option.bind_eq_some_iff.mp hst
    obtain ⟨⟨cc', tc', r⟩, hrun, hst⟩ := Option.bind_eq_some_iff.mp hst
    cases hst
    intro t tc₁ ht
    exact h.update (ThreadCache.allocate_bounded (h thread tc htc) hrun) ht
  | deallocate thread p size =>
    obtain ⟨tc, htc, hst⟩ := Option.bind_eq_some_iff.mp hst
    obtain ⟨⟨cc', tc'⟩, hrun, hst⟩ := Option.bind_eq_some_iff.mp hst
    cases hst
    intro t tc₁ ht
    exact h.update (ThreadCache.deallocate_bounded (h thread tc htc) hrun) ht
  | destroy thread =>
    obtain ⟨tc, htc, hst⟩ := Option.bind_eq_some_iff.mp hst
    obtain ⟨cc', hrun, hst⟩ := Option.bind_eq_some_iff.mp hst
    cases hst
    intro t tc₁ ht
    by_cases htt : t = thread
    · rw [htt] at ht
      cases (Function.update_self ..).symm.trans ht
    · exact h t tc₁ ((Function.update_of_ne htt ..).symm.trans ht)

/-- A size that the caches do not manage leaves the pool as it is. -/
theorem step_unmanaged (h : mp.Inv kind loc) {thread size : Nat}
    (hsize : ¬ ThreadCache.Managed size) (hthread : (mp.threadCaches thread).isSome) :
    (∀ system, mp.step (.allocate thread size system) = some mp) ∧
      ∀ p, mp.step (.deallocate thread p size) = some mp := by
  obtain ⟨tc, htc⟩ := Option.isSome_iff_exists.mp hthread
  have hupdate : Function.update mp.threadCaches thread (some tc) = mp.threadCaches := by
    rw [← htc]
    exact Function.update_eq_self ..
  constructor
  · intro system
    obtain ⟨r, hrun, hr⟩ :=
      ThreadCache.allocate_unmanaged tc mp.centralCache (some system) hsize
    -- the result is no block, and nothing becomes live
    simp only [step, htc, hrun, Option.bind_eq_bind, Option.bind_some, hupdate]
  · intro p
    have hnot : (p, size) ∉ mp.live := fun hp =>
      hsize ⟨(h.sizes p size hp).1, (h.sizes p size hp).2.1⟩
    simp only [step, htc, ThreadCache.deallocate_unmanaged tc mp.centralCache p hsize,
      Option.bind_eq_bind, Option.bind_some, hupdate, List.erase_of_not_mem hnot]

/-- An operation that is allowed is defined, and it keeps the invariant. -/
theorem Inv.step_allowed (h : mp.Inv kind loc) (hok : mp.counted.Ok op) :
    ∃ mp' kind' loc', mp.step op = some mp' ∧ mp'.Inv kind' loc' := by
  have hsome : ∀ t, (mp.counted.threadCaches t).isSome = (mp.threadCaches t).isSome :=
    fun t => Option.isSome_map ..
  cases op with
  | create thread =>
    have hnone : (mp.threadCaches thread).isNone := by
      rw [← Option.not_isSome, ← hsome, Option.not_isSome]
      exact hok
    obtain ⟨mp', kind', loc', hst, hinv, _⟩ := h.step (show mp.Ok (.create thread) from hnone)
    exact ⟨mp', kind', loc', hst, hinv⟩
  | allocate thread size system =>
    obtain ⟨hthread, hsystem⟩ := hok
    rw [hsome] at hthread
    by_cases hsize : ThreadCache.Managed size
    · obtain ⟨mp', kind', loc', _, hst, hinv, _⟩ :=
        h.allocate ⟨hthread, hsize.1, hsize.2, hsystem hsize⟩
      exact ⟨mp', kind', loc', hst, hinv⟩
    · exact ⟨mp, kind, loc, (step_unmanaged h hsize hthread).1 system, h⟩
  | deallocate thread p size =>
    obtain ⟨hthread, hp⟩ := hok
    rw [hsome] at hthread
    by_cases hsize : ThreadCache.Managed size
    · obtain ⟨mp', kind', loc', hst, hinv, _⟩ := h.deallocate ⟨hthread, hp hsize⟩
      exact ⟨mp', kind', loc', hst, hinv⟩
    · exact ⟨mp, kind, loc, (step_unmanaged h hsize hthread).2 p, h⟩
  | destroy thread =>
    obtain ⟨mp', kind', loc', hst, hinv, _⟩ := h.destroy ((hsome thread).symm.trans hok)
    exact ⟨mp', kind', loc', hst, hinv⟩

/-- What is in order for the pool is allowed for the pool that counts. -/
theorem Ok.counted (h : mp.Ok op) : mp.counted.Ok op := by
  have hsome : ∀ t, (mp.counted.threadCaches t).isSome = (mp.threadCaches t).isSome :=
    fun t => Option.isSome_map ..
  cases op with
  | create thread =>
    show (mp.counted.threadCaches thread).isNone
    rw [← Option.not_isSome, hsome, Option.not_isSome]
    exact h
  | allocate thread size system => exact ⟨(hsome thread).trans h.1, fun _ => h.2.2.2⟩
  | deallocate thread p size => exact ⟨(hsome thread).trans h.1, fun _ => h.2⟩
  | destroy thread => exact (hsome thread).trans h

/-- A run of the pool is a run of the pool that counts. -/
theorem run_counted {ops : List PoolOp} (hr : Transition.Run MemoryPool.step Ok mp ops mp')
    (h : mp.Bounded) :
    Transition.Run CountedPool.step CountedPool.Ok mp.counted ops mp'.counted := by
  induction hr with
  | nil mp => exact .nil _
  | cons hok hst _ ih =>
    refine .cons hok.counted ?_ (ih (h.step hst))
    rw [step_counted h, hst]
    rfl

end Counted

end MemoryPool

namespace CountedPool

/-- The pool is one whose counters are right and whose lists are short. -/
def Counts (cp : CountedPool) : Prop :=
  ∃ (mp : MemoryPool) (kind : SpanId → Kind) (loc : Addr → Place),
    cp = mp.counted ∧ mp.Inv kind loc ∧ mp.Bounded

theorem Counts.step {cp : CountedPool} (h : cp.Counts) {op : PoolOp} (hok : cp.Ok op) :
    ∃ cp', cp.step op = some cp' ∧ cp'.Counts := by
  obtain ⟨mp, kind, loc, rfl, hinv, hbound⟩ := h
  obtain ⟨mp', kind', loc', hst, hinv'⟩ := hinv.step_allowed hok
  refine ⟨mp'.counted, ?_, mp', kind', loc', rfl, hinv', hbound.step hst⟩
  rw [MemoryPool.step_counted hbound, hst]
  rfl

theorem Counts.of_run {ops : List PoolOp} {cp : CountedPool}
    (hr : Transition.Run CountedPool.step Ok init ops cp) : cp.Counts := by
  apply hr.invariant (I := Counts)
  · intro s op t hs hok hst
    obtain ⟨t', ht', hcounts⟩ := hs.step hok
    obtain rfl := Option.some.inj (ht'.symm.trans hst)
    exact hcounts
  · exact ⟨MemoryPool.init, _, _, rfl, MemoryPool.init_inv, MemoryPool.init_bounded⟩

/-- After every sequence of operations the size of each list is the length of its chain and
stays below twice its limit, which is at most 1026.  The next operation is defined: no list
is popped that is empty. -/
theorem lists_exact (ops : List PoolOp) (cp : CountedPool)
    (hr : Transition.Run step Ok init ops cp) :
    (∀ t tc c, cp.threadCaches t = some tc → (tc c).size.toNat = (tc c).chain.length ∧
      (tc c).size.toNat < 2 * (tc c).maxSize ∧ 2 * (tc c).maxSize ≤ 1026) ∧
    ∀ op, cp.Ok op → ∃ cp', cp.step op = some cp' := by
  have h := Counts.of_run hr
  constructor
  · intro t tc c ht
    obtain ⟨mp, _, _, rfl, _, hbound⟩ := h
    obtain ⟨tc, htc, rfl⟩ := Option.map_eq_some_iff.mp ht
    obtain ⟨hshort, hlimit⟩ := hbound t tc htc c
    have hsize : (tc.counted c).size.toNat = (tc c).chain.length :=
      FreeList.counted_size (by omega)
    have hmax : maxBlockNum = 512 := rfl
    refine ⟨hsize, ?_, ?_⟩
    · rw [hsize]
      exact hshort
    · show 2 * (tc c).maxSize ≤ 1026
      omega
  · intro op hok
    obtain ⟨cp', hst, _⟩ := h.step hok
    exact ⟨cp', hst⟩

/-- A block is fetched, handed out and returned, and the next allocation finds it. -/
theorem lists_exact_three : ∃ cp, Transition.Run step Ok init
    [.create 0, .allocate 0 262144 0x100000, .deallocate 0 0x140000 262144] cp ∧
      (∀ t tc c, cp.threadCaches t = some tc → (tc c).size.toNat = (tc c).chain.length ∧
        (tc c).size.toNat < 2 * (tc c).maxSize ∧ 2 * (tc c).maxSize ≤ 1026) ∧
      ∃ cp', cp.step (.allocate 0 262144 0x200000) = some cp' := by
  obtain ⟨mp, hr, hok⟩ := Transition.Run.exists_of_exec
    (p := fun mp : MemoryPool => mp.Ok (.allocate 0 262144 0x200000))
    (show (Transition.exec MemoryPool.step MemoryPool.Ok MemoryPool.init
      [.create 0, .allocate 0 262144 0x100000, .deallocate 0 0x140000 262144]).map
        (fun mp => decide (mp.Ok (.allocate 0 262144 0x200000))) = some true from by
        decide +kernel)
  have hcounted := MemoryPool.run_counted hr MemoryPool.init_bounded
  obtain ⟨hlists, hnext⟩ := lists_exact _ mp.counted hcounted
  exact ⟨mp.counted, hcounted, hlists, hnext _ (of_decide_eq_true hok).counted⟩

end CountedPool

end Pool

end WWRaftKV
