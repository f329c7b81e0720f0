/-
The pool with its pointers, over whole runs.

A live block shares no word with a free one, so that the callers may write their blocks
while the lists run through the free ones.  Every run of the linked pool is a run of the
pool with lists, and the words of a live block are what its callers have written.
-/
import WWRaftKV.Pool.LinkedCaches

namespace WWRaftKV

namespace Pool

open Chained (Chains Unused)
open CentralCache (blocksOf)
open Memory.Holds (Carvable)

/-! ## Words of blocks -/

theorem indexToSize_mod (index : Nat) : Size.indexToSize index % 8 = 0 := by
  unfold Size.indexToSize
  split_ifs <;> omega

theorem aligned_of_mem {a : Span} {c x : Nat} (hx : x ∈ blocksOf a (Size.indexToSize c)) :
    x % 8 = 0 := by
  obtain ⟨i, -, rfl⟩ := mem_blocksOf.mp hx
  have hsize := Nat.dvd_of_mod_eq_zero (indexToSize_mod c)
  have hpage : 8 ∣ a.pageId * 4096 := ⟨a.pageId * 512, by omega⟩
  exact Nat.mod_eq_zero_of_dvd (Nat.dvd_add hpage (Nat.dvd_trans hsize ⟨i, Nat.mul_comm ..⟩))

theorem slot_injective {x y : Nat} (hx : x % 8 = 0) (hy : y % 8 = 0) (h : slot x = slot y) :
    x = y := by
  unfold slot at h
  omega

/-- An address within a block lies on a page of the span. -/
theorem within_covers {a : Span} {size x y : Nat} (hy : y ∈ blocksOf a size) (hle : y ≤ x)
    (hlt : x < y + size) : a.extent.Covers (x / 4096) := by
  have hin := block_inside hy
  show a.pageId ≤ x / 4096 ∧ x / 4096 < a.pageId + a.pageCount
  omega

namespace CentralCache

variable {cc : CentralCache} {kind : SpanId → Kind} {loc : Addr → Place} {c d x y : Nat}

theorem IsBlock.aligned (h : cc.IsBlock c x) : x % 8 = 0 := by
  obtain ⟨s, a, -, -, hx⟩ := h
  exact aligned_of_mem hx

/-- A block within another one is the same. -/
theorem Inv.eq_of_within (h : cc.Inv kind loc) (hx : cc.IsBlock c x) (hy : cc.IsBlock d y)
    (hle : y ≤ x) (hlt : x < y + Size.indexToSize d) : x = y := by
  obtain ⟨s, a, hs, ha, hxa⟩ := hx
  obtain ⟨t, b, ht, hb, hyb⟩ := hy
  have hcover := block_covers (h.size_pos hs) hxa
  rw [ptrToId_eq] at hcover
  obtain rfl : s = t := h.pages.tiles.apart s t _ _ _ (PageCache.extents_of_heap ha)
    (PageCache.extents_of_heap hb) hcover (within_covers hyb hle hlt)
  obtain rfl := Option.some.inj (ha.symm.trans hb)
  obtain rfl := h.oneClass c d s hs ht
  by_contra hne
  rcases block_apart hxa hyb hne with hapart | hapart
  · have := h.size_pos hs
    omega
  · omega

/-- An address within a block is on no page of a span that is fetched. -/
theorem Inv.fetched_without {pages : Nat} {pc' : PageCache} {kind' : SpanId → Kind} {s : SpanId}
    {a : Span} (h : cc.Inv kind loc) (hf : PageCache.Fetched cc.pageCache kind pages pc' kind' s)
    (hc : c < maxArraySize) (ha : pc'.heap s = some a) (hy : cc.IsBlock d y) (hle : y ≤ x)
    (hlt : x < y + Size.indexToSize d) : x ∉ blocksOf a (Size.indexToSize c) := by
  intro hx
  obtain ⟨t, b, ht, hb, hyb⟩ := hy
  have hts : t ≠ s := fun e => h.fetched_new hf d (e ▸ ht)
  have hb' := (h.fetched_heap hf ht).mpr hb
  have hsize := (Size.indexToSize_bounds hc).1
  have hcover := block_covers (by omega) hx
  rw [ptrToId_eq] at hcover
  exact hts (hf.inv.tiles.apart t s _ _ _ (PageCache.extents_of_heap hb')
    (PageCache.extents_of_heap ha) (within_covers hyb hle hlt) hcover)

/-- The lists of the other spans are as they were, and that of the fetched span is empty. -/
theorem Inv.fetched_chains {pages : Nat} {pc' : PageCache} {kind' : SpanId → Kind} {s : SpanId}
    (h : cc.Inv kind loc) (hf : PageCache.Fetched cc.pageCache kind pages pc' kind' s)
    {caches : Nat → Option ThreadCache} {i : ListId} (hy : y ∈ chains pc'.heap caches [] i) :
    y ∈ chains cc.pageCache.heap caches [] i := by
  cases i with
  | span t =>
    cases hb : pc'.heap t with
    | none =>
      rw [chains, hb] at hy
      exact absurd hy List.not_mem_nil
    | some b =>
      rw [chains_of_span hb] at hy
      by_cases hts : t = s
      · obtain ⟨e, he, -, hempty⟩ := hf.span
        rw [hts] at hb
        obtain rfl := Option.some.inj (he.symm.trans hb)
        rw [(hempty h.clean).2] at hy
        exact absurd hy List.not_mem_nil
      · by_cases hk : kind' t = .busy
        · rw [chains_of_span ((hf.others t b hts).mp ⟨hk, hb⟩).2]
          exact hy
        · rw [(hf.clean h.clean t b hk hb).2] at hy
          exact absurd hy List.not_mem_nil
  | cache t d => exact hy
  | moving => exact hy

end CentralCache

namespace MemoryPool

variable {mp : MemoryPool} {kind : SpanId → Kind} {loc : Addr → Place}

/-- The words of the live blocks on a list. -/
def Owned (live : List (Addr × Nat)) (word : Nat) : Prop :=
  ∃ p size, (p, size) ∈ live ∧ LinkedPool.Owns p size word

theorem Owned.mono {live live' : List (Addr × Nat)} {word : Nat} (h : Owned live word)
    (hsub : ∀ e ∈ live, e ∈ live') : Owned live' word := by
  obtain ⟨p, size, hp, howns⟩ := h
  exact ⟨p, size, hsub _ hp, howns⟩

/-- A block whose link is in a word of a live block is that block. -/
theorem Inv.eq_of_owns (h : mp.Inv kind loc) {p : Addr} {size c x : Nat}
    (hp : (p, size) ∈ mp.live) (hx : mp.centralCache.IsBlock c x)
    (howns : LinkedPool.Owns p size (slot x)) : x = p := by
  obtain ⟨d, hround, hblock, -⟩ := h.block_of_live hp
  have hle := Size.le_roundUp (h.sizes p size hp).2.1
  have hxa := hx.aligned
  have hpa := hblock.aligned
  obtain ⟨hlo, hhi⟩ := howns
  unfold slot at hlo hhi
  apply h.calm.inv.eq_of_within hx hblock <;> omega

/-- What is on a free list is a block that is not out. -/
theorem Inv.free_block (h : mp.Inv kind loc) {i : ListId} {x : Addr}
    (hx : x ∈ chains mp.centralCache.pageCache.heap mp.threadCaches [] i) :
    ∃ c, mp.centralCache.IsBlock c x ∧ loc x ≠ .out := by
  cases i with
  | span s =>
    cases ha : mp.centralCache.pageCache.heap s with
    | none =>
      rw [chains, ha] at hx
      exact absurd hx List.not_mem_nil
    | some a =>
      rw [chains_of_span ha] at hx
      by_cases hk : kind s = .busy
      · obtain ⟨c, hs⟩ := (h.calm.inv.busy s).mp ⟨hk, a, ha⟩
        obtain ⟨hmem, hhome⟩ := ((h.calm.inv.chain c s a hs ha).mem x).mp hx
        refine ⟨c, ⟨s, a, hs, ha, hmem⟩, ?_⟩
        rw [hhome]
        decide
      · rw [(h.calm.inv.clean s a hk ha).2] at hx
        exact absurd hx List.not_mem_nil
  | cache t c =>
    cases ht : mp.threadCaches t with
    | none =>
      rw [chains, ht] at hx
      exact absurd hx List.not_mem_nil
    | some tc =>
      rw [chains_of_cache ht] at hx
      obtain ⟨hblock, hplace⟩ := (((h.caches t tc ht).chain c).mem x).mp hx
      refine ⟨c, hblock, ?_⟩
      rw [hplace]
      simp
  | moving => exact absurd hx List.not_mem_nil

/-- No word of a live block is a link. -/
theorem Inv.free_off (h : mp.Inv kind loc) {i : ListId} {x : Addr}
    (hx : x ∈ chains mp.centralCache.pageCache.heap mp.threadCaches [] i) :
    ¬ Owned mp.live (slot x) := by
  rintro ⟨p, size, hp, howns⟩
  obtain ⟨c, hblock, hplace⟩ := h.free_block hx
  obtain rfl := h.eq_of_owns hp hblock howns
  obtain ⟨d, -, hout⟩ := h.block_of_live hp
  exact hplace hout.2

/-- A block that is given back is on no list, and it is of no other live block. -/
theorem Inv.live_unused (h : mp.Inv kind loc) {p : Addr} {size : Nat} (hp : (p, size) ∈ mp.live) :
    p ≠ nullptr ∧ Unused slot (Owned (mp.live.erase (p, size)))
      (chains mp.centralCache.pageCache.heap mp.threadCaches []) (slot p) := by
  obtain ⟨c, -, hblock, hplace⟩ := h.block_of_live hp
  refine ⟨?_, ?_, ?_⟩
  · obtain ⟨s, a, -, ha, hmem⟩ := hblock
    have hin := block_inside hmem
    have hpos := (h.calm.inv.pages.bounds ha).1
    exact Nat.pos_iff_ne_zero.mp (by omega)
  · rintro ⟨q, n, hq, howns⟩
    have hrest : Lists ((mp.live.erase (p, size)).map Prod.fst)
        fun x => (∃ c, mp.centralCache.At loc c .out x) ∧ x ≠ p :=
      h.live.map_erase hp fun y => Iff.rfl
    have hne : q ≠ p := ((hrest.mem q).mp (List.mem_map_of_mem hq)).2
    exact hne (h.eq_of_owns (List.mem_of_mem_erase hq) hblock howns).symm
  · intro i x hx hsame
    obtain ⟨d, hfree, hnot⟩ := h.free_block hx
    obtain rfl := slot_injective hfree.aligned hblock.aligned hsame
    exact hnot hplace

/-- The blocks of a span that is fetched are on no list, and of no live block. -/
theorem Inv.carvable (h : mp.Inv kind loc) {c : Nat} (hc : c < maxArraySize) {system : Addr}
    (hsystem : mp.centralCache.pageCache.FreshRegion system) :
    Carvable (Owned mp.live) mp.centralCache mp.threadCaches (Size.indexToSize c)
      (some system) := by
  intro pc' s a hfetch ha
  obtain ⟨hmin, hmax⟩ := Size.indexToSize_bounds hc
  obtain ⟨hpages, hpagesMax, -⟩ := pageCountFor_bounds hmin hmax
  have hregion : ∀ p, some system = some p → mp.centralCache.pageCache.FreshRegion p :=
    fun p hp => Option.some.inj hp ▸ hsystem
  obtain ⟨s₁, pc₁, kind', hfetch₁, hf⟩ :=
    (h.calm.inv.pages.fetchSpan hpages hpagesMax hregion).resolve_right fun hnone => nomatch hnone.1
  cases hfetch₁.symm.trans hfetch
  have hinv := h.calm.inv
  constructor
  · apply (blocksOf_nodup (by omega)).map_on
    intro x hx y hy hsame
    exact slot_injective (aligned_of_mem hx) (aligned_of_mem hy) hsame
  · intro x hx
    refine ⟨?_, ?_, ?_⟩
    · have hin := block_inside hx
      have hpos := (hf.inv.bounds ha).1
      exact Nat.pos_iff_ne_zero.mp (by omega)
    · rintro ⟨p, size, hp, hlo, hhi⟩
      obtain ⟨d, hround, hblock, -⟩ := h.block_of_live hp
      have hle := Size.le_roundUp (h.sizes p size hp).2.1
      have hxa := aligned_of_mem hx
      have hpa := hblock.aligned
      unfold slot at hlo hhi
      apply hinv.fetched_without hf hc ha hblock (x := x) (by omega) (by omega) hx
    · intro i y hy hsame
      obtain ⟨d, hblock, -⟩ := h.free_block (hinv.fetched_chains hf hy)
      obtain rfl := slot_injective hblock.aligned (aligned_of_mem hx) hsame
      have hpos : 0 < Size.indexToSize d := by
        obtain ⟨t, b, ht, -⟩ := hblock
        exact hinv.size_pos ht
      exact hinv.fetched_without hf hc ha hblock (Nat.le_refl y) (by omega) hx

end MemoryPool

/-! ## Runs -/

namespace LinkedPool

open MemoryPool (Owned)

/-- The pool with lists that the linked pool stands for. -/
structure Represents (lp : LinkedPool) (mp : MemoryPool) : Prop where
  memory : Memory.Holds (fun _ => False) lp.memory.words lp.memory mp.centralCache
    mp.threadCaches []
  caches : lp.threadCaches = fun t => (mp.threadCaches t).map ThreadCache.linked
  live : lp.live = mp.live

/-- The words of the blocks that stay live are as they were. -/
def Keeps (lp lp' : LinkedPool) : Prop :=
  ∀ p size word, (p, size) ∈ lp.live → (p, size) ∈ lp'.live → Owns p size word →
    lp'.memory.words word = lp.memory.words word

section Steps

variable {lp lp' : LinkedPool} {mp mp' : MemoryPool} {kind : SpanId → Kind} {loc : Addr → Place}
  {op : PoolOp}

theorem init_represents (w : Words) : (init w).Represents MemoryPool.init where
  memory :=
    { heap := rfl
      nextSpan := rfl
      freeSpanMap := rfl
      busySpanMap := rfl
      alignPointers := rfl
      rings := by
        constructor
        · intro l
          cases l <;> exact ⟨⟨rfl, rfl⟩, List.nodup_singleton _⟩
        · intro l k hlk x hx hx'
          have hl : x = .head l := by cases l <;> exact List.mem_singleton.mp hx
          have hk : x = .head k := by cases k <;> exact List.mem_singleton.mp hx'
          exact hlk (Node.head.inj (hl.symm.trans hk))
      present := fun _ => rfl
      words := by
        apply Chains.of_nil
        · intro i
          cases i <;> rfl
        · exact fun _ hf => hf.elim }
  caches := rfl
  live := rfl

theorem Represents.cache (h : lp.Represents mp) (t : Nat) :
    lp.threadCaches t = (mp.threadCaches t).map ThreadCache.linked := by rw [h.caches]

/-- The two pools are in order for the same operations. -/
theorem Represents.ok (h : lp.Represents mp) (hok : lp.Ok (.pool op)) : mp.Ok op := by
  have hsome : ∀ t, (lp.threadCaches t).isSome = (mp.threadCaches t).isSome := by
    intro t
    rw [h.cache, Option.isSome_map]
  cases op with
  | create thread =>
    show (mp.threadCaches thread).isNone
    rw [← Option.not_isSome, ← hsome, Option.not_isSome]
    exact hok
  | allocate thread size system =>
    obtain ⟨hthread, hsize, hmax, hsystem⟩ := hok
    refine ⟨(hsome thread).symm.trans hthread, hsize, hmax, ?_⟩
    rw [h.memory.alignPointers] at hsystem
    exact ⟨hsystem.pos, hsystem.aligned, hsystem.bound, hsystem.apart⟩
  | deallocate thread p size =>
    refine ⟨(hsome thread).symm.trans hok.1, ?_⟩
    rw [← h.live]
    exact hok.2
  | destroy thread => exact (hsome thread).symm.trans hok

/-- The memory, while the words `F` are looked at. -/
theorem Represents.guard (h : lp.Represents mp) {F : Nat → Prop}
    (hF : ∀ i, ∀ x ∈ chains mp.centralCache.pageCache.heap mp.threadCaches [] i, ¬ F (slot x)) :
    Memory.Holds F lp.memory.words lp.memory mp.centralCache mp.threadCaches [] :=
  { h.memory with words := h.memory.words.guard hF }

theorem linked_caches (caches : Nat → Option ThreadCache) (t : Nat) (o : Option ThreadCache) :
    Function.update (fun u => (caches u).map ThreadCache.linked) t (o.map ThreadCache.linked) =
      fun u => (Function.update caches t o u).map ThreadCache.linked := by
  funext u
  by_cases hu : u = t
  · rw [hu, Function.update_self, Function.update_self]
  · rw [Function.update_of_ne hu, Function.update_of_ne hu]

/-- After an operation that has kept the words `F`. -/
theorem represents_of_holds {F : Nat → Prop} {w₀ : Words} {m : Memory} {cc : CentralCache}
    {caches : Nat → Option ThreadCache} {live : List (Addr × Nat)}
    (h : Memory.Holds F w₀ m cc caches []) :
    LinkedPool.Represents
      { memory := m, threadCaches := fun u => (caches u).map ThreadCache.linked, live := live }
      { centralCache := cc, threadCaches := caches, live := live } where
  memory := { h with words := h.words.guard fun _ _ _ hf => hf }
  caches := rfl
  live := rfl

/-- An operation of the pool, through the pointers. -/
theorem Represents.stepPool (h : lp.Represents mp) (hinv : mp.Inv kind loc) (hbound : mp.Bounded)
    (hok : mp.Ok op) (hst : mp.step op = some mp') :
    ∃ lp', lp.stepPool op = some lp' ∧ lp'.Represents mp' ∧ lp.Keeps lp' := by
  have hfresh := hinv.calm.inv.pages.fresh
  have hguard := h.guard (F := Owned mp.live) fun i x hx => hinv.free_off hx
  have hkeep : ∀ m : Memory, (∀ w, Owned mp.live w → m.words w = lp.memory.words w) →
      ∀ caches live, lp.Keeps { memory := m, threadCaches := caches, live := live } := by
    intro m hm caches live p size word hp _ howns
    rw [h.live] at hp
    exact hm word ⟨p, size, hp, howns⟩
  cases op with
  | create thread =>
    cases hst
    have h' : Memory.Holds (Owned mp.live) lp.memory.words lp.memory mp.centralCache
        (Function.update mp.threadCaches thread (some ThreadCache.init)) [] := by
      apply hguard.rewrite
      apply hguard.words.shrink
      apply chains_drop
      intro tc htc c
      cases htc
      rfl
    refine ⟨_, ?_, represents_of_holds h', hkeep lp.memory (fun _ _ => rfl) _ _⟩
    rw [LinkedPool.stepPool, ← linked_caches, h.caches, h.live]
    rfl
  | allocate thread size system =>
    obtain ⟨hthread, hone, hmax, hsystem⟩ := hok
    obtain ⟨tc, htc, hst⟩ := Option.bind_eq_some_iff.mp hst
    obtain ⟨⟨cc', tc', r⟩, hrun, hst⟩ := Option.bind_eq_some_iff.mp hst
    cases hst
    obtain ⟨hc, hround⟩ := Size.indexToSize_roundUp hone hmax
    have hcarve := hinv.carvable hc hsystem
    rw [hround] at hcarve
    obtain ⟨m', hrun', h'⟩ := hguard.allocate htc hfresh hcarve ⟨hone, hmax⟩ hrun
    refine ⟨_, ?_, represents_of_holds h', ?_⟩
    · rw [LinkedPool.stepPool, h.cache, htc]
      simp only [Option.map_some, Option.bind_eq_bind, Option.bind_some]
      rw [hrun', Option.bind_some, ← linked_caches, h.caches, h.live]
      rfl
    · exact hkeep m' h'.words.frame _ _
  | deallocate thread p size =>
    obtain ⟨hthread, hp⟩ := hok
    obtain ⟨tc, htc, hst⟩ := Option.bind_eq_some_iff.mp hst
    obtain ⟨⟨cc', tc'⟩, hrun, hst⟩ := Option.bind_eq_some_iff.mp hst
    cases hst
    obtain ⟨hone, hmax, -⟩ := hinv.sizes p size hp
    obtain ⟨hne, hunused⟩ := hinv.live_unused hp
    -- the block itself is no longer looked at
    have hrest := h.guard (F := Owned (mp.live.erase (p, size))) fun i x hx hoff =>
      hinv.free_off hx (hoff.mono fun e => List.mem_of_mem_erase)
    obtain ⟨m', hrun', h'⟩ := hrest.deallocate htc (hbound thread tc htc) ⟨hone, hmax⟩ hne hunused
      hrun
    refine ⟨_, ?_, represents_of_holds h', ?_⟩
    · rw [LinkedPool.stepPool, h.cache, htc]
      simp only [Option.map_some, Option.bind_eq_bind, Option.bind_some]
      rw [hrun', Option.bind_some, ← linked_caches, h.caches, h.live]
      rfl
    · intro q n word _ hq howns
      exact h'.words.frame word ⟨q, n, hq, howns⟩
  | destroy thread =>
    obtain ⟨tc, htc, hst⟩ := Option.bind_eq_some_iff.mp hst
    obtain ⟨cc', hrun, hst⟩ := Option.bind_eq_some_iff.mp hst
    cases hst
    obtain ⟨m', hrun', h'⟩ := hguard.drainLoop htc (hbound thread tc htc) hrun
    refine ⟨_, ?_, represents_of_holds h', hkeep m' h'.words.frame _ _⟩
    rw [LinkedPool.stepPool, h.cache, htc]
    simp only [Option.map_some, Option.bind_eq_bind, Option.bind_some]
    rw [LinkedCache.destroy, hrun', Option.bind_some, ← linked_caches, h.caches, h.live]
    rfl

/-- A caller writes a word of its block. -/
theorem Represents.write (h : lp.Represents mp) (hinv : mp.Inv kind loc) {p : Addr}
    {size word : Nat} (value : Addr) (hp : (p, size) ∈ lp.live) (howns : Owns p size word) :
    LinkedPool.Represents { lp with memory :=
      { lp.memory with words := Function.update lp.memory.words word value } } mp where
  memory := by
    have hout : Unused slot (fun _ => False)
        (chains mp.centralCache.pageCache.heap mp.threadCaches []) word := by
      refine ⟨id, ?_⟩
      rintro i x hx rfl
      rw [h.live] at hp
      exact hinv.free_off hx ⟨p, size, hp, howns⟩
    have hwritten := h.memory.words.write (v := value) hout
    exact { h.memory with words := hwritten.guard fun _ _ _ hf => hf }
  caches := h.caches
  live := h.live

/-- The linked pool stands for a pool with lists that is in order. -/
def Stands (lp : LinkedPool) (mp : MemoryPool) : Prop :=
  lp.Represents mp ∧ (∃ kind loc, mp.Inv kind loc) ∧ mp.Bounded

theorem init_stands (w : Words) : (init w).Stands MemoryPool.init :=
  ⟨init_represents w, ⟨_, _, MemoryPool.init_inv⟩, MemoryPool.init_bounded⟩

/-- A step of the linked pool is one of the pool with lists, or the pool does not notice. -/
theorem Stands.step (h : lp.Stands mp) {op : LinkedOp} (hok : lp.Ok op) :
    ∃ lp' mp', lp.step op = some lp' ∧ lp'.Stands mp' ∧
      Transition.Run MemoryPool.step MemoryPool.Ok mp op.pool?.toList mp' ∧
      ((∀ p size word value, op ≠ .write p size word value) → lp.Keeps lp') := by
  obtain ⟨hrep, ⟨kind, loc, hinv⟩, hbound⟩ := h
  cases op with
  | pool op =>
    have hmp := hrep.ok hok
    obtain ⟨mp', kind', loc', hst, hinv', -⟩ := hinv.step hmp
    obtain ⟨lp', hrun, hrep', hkeeps⟩ := hrep.stepPool hinv hbound hmp hst
    exact ⟨lp', mp', hrun, ⟨hrep', ⟨kind', loc', hinv'⟩, hbound.step hst⟩,
      .cons hmp hst (.nil mp'), fun _ => hkeeps⟩
  | write p size word value =>
    refine ⟨_, mp, rfl, ⟨hrep.write hinv value hok.1 hok.2, ⟨kind, loc, hinv⟩, hbound⟩, .nil mp, ?_⟩
    intro hne
    exact absurd rfl (hne p size word value)

/-- A run of the linked pool is a run of the pool with lists. -/
theorem Stands.of_run {ops : List LinkedOp}
    (hr : Transition.Run LinkedPool.step Ok lp ops lp')
    (h : lp.Stands mp) :
    ∃ mp', Transition.Run MemoryPool.step MemoryPool.Ok mp (ops.filterMap LinkedOp.pool?) mp' ∧
      lp'.Stands mp' := by
  induction hr generalizing mp with
  | nil lp => exact ⟨mp, .nil mp, h⟩
  | @cons lp lp₁ lp' op ops hok hst hr ih =>
    obtain ⟨lp₂, mp₁, hst', h₁, hrun₁, -⟩ := h.step hok
    obtain rfl := Option.some.inj (hst'.symm.trans hst)
    obtain ⟨mp', hrun, h'⟩ := ih h₁
    refine ⟨mp', ?_, h'⟩
    cases op with
    | pool op =>
      cases hrun₁ with
      | cons hok₁ hst₁ hnil =>
        cases hnil
        exact .cons hok₁ hst₁ hrun
    | write p size word value =>
      cases hrun₁
      exact hrun

end Steps

/-- The pool with its pointers refines the pool with lists, on every run: the free lists are
chains through the free blocks, the span lists are rings, and every list that a loop follows
is the one of the pool with lists.  The next operation is defined, so that no null pointer
and no deleted span is read, whatever memory held at first and whatever the callers have
written to their blocks. -/
theorem run_refines (w : Words) (ops : List LinkedOp) (lp : LinkedPool)
    (hr : Transition.Run step Ok (init w) ops lp) :
    (∃ mp, Transition.Run MemoryPool.step MemoryPool.Ok MemoryPool.init
        (ops.filterMap LinkedOp.pool?) mp ∧ lp.Represents mp) ∧
      ∀ op, lp.Ok op → ∃ lp', lp.step op = some lp' := by
  obtain ⟨mp, hrun, hstands⟩ := (init_stands w).of_run hr
  refine ⟨⟨mp, hrun, hstands.1⟩, ?_⟩
  intro op hok
  obtain ⟨lp', -, hst, -⟩ := hstands.step hok
  exact ⟨lp', hst⟩

/-- A caller has written to the word where the link of its block will be. -/
theorem run_refines_written : ∃ lp, Transition.Run step Ok (init fun word => word)
    [.pool (.create 0), .pool (.allocate 0 262144 0x100000), .write 0x140000 262144 0x28000 7,
      .pool (.deallocate 0 0x140000 262144)] lp ∧
      (∃ mp, Transition.Run MemoryPool.step MemoryPool.Ok MemoryPool.init
        [.create 0, .allocate 0 262144 0x100000, .deallocate 0 0x140000 262144] mp ∧
        lp.Represents mp) ∧
      ∃ lp', lp.step (.pool (.allocate 0 262144 0x200000)) = some lp' := by
  have hexec : (Transition.exec step Ok (init fun word => word)
      [.pool (.create 0), .pool (.allocate 0 262144 0x100000), .write 0x140000 262144 0x28000 7,
        .pool (.deallocate 0 0x140000 262144)]).map
      (fun lp => decide (lp.Ok (.pool (.allocate 0 262144 0x200000)))) = some true := by
    decide +kernel
  obtain ⟨lp, hr, hok⟩ := Transition.Run.exists_of_exec hexec
  obtain ⟨hrefines, hnext⟩ := run_refines _ _ lp hr
  exact ⟨lp, hr, hrefines, hnext _ (of_decide_eq_true hok)⟩

/-! ## What the callers read -/

/-- A block stays live as long as nobody gives it back. -/
theorem live_step {lp lp' : LinkedPool} {op : LinkedOp} {p : Addr} {size : Nat}
    (hst : lp.step op = some lp') (hop : ∀ thread, op ≠ .pool (.deallocate thread p size))
    (hp : (p, size) ∈ lp.live) : (p, size) ∈ lp'.live := by
  cases op with
  | pool op =>
    cases op with
    | create thread =>
      cases hst
      exact hp
    | allocate thread n system =>
      obtain ⟨tc, -, hst⟩ := Option.bind_eq_some_iff.mp hst
      obtain ⟨⟨m', tc', r⟩, -, hst⟩ := Option.bind_eq_some_iff.mp hst
      cases hst
      cases r with
      | nullptr => exact hp
      | heap => exact hp
      | block q => exact List.mem_cons_of_mem _ hp
    | deallocate thread q n =>
      obtain ⟨tc, -, hst⟩ := Option.bind_eq_some_iff.mp hst
      obtain ⟨⟨m', tc'⟩, -, hst⟩ := Option.bind_eq_some_iff.mp hst
      cases hst
      apply (List.mem_erase_of_ne ?_).mpr hp
      intro hsame
      obtain ⟨rfl, rfl⟩ := Prod.mk.inj hsame
      exact hop thread rfl
    | destroy thread =>
      obtain ⟨tc, -, hst⟩ := Option.bind_eq_some_iff.mp hst
      obtain ⟨m', -, hst⟩ := Option.bind_eq_some_iff.mp hst
      cases hst
      exact hp
  | write q n word value =>
    cases hst
    exact hp

/-- A word of a block that stays live changes when it is written. -/
theorem Stands.reads {ops : List LinkedOp} {lp lp' : LinkedPool} {mp : MemoryPool} {p : Addr}
    {size word : Nat} (hr : Transition.Run LinkedPool.step Ok lp ops lp') (h : lp.Stands mp)
    (hp : (p, size) ∈ lp.live) (howns : Owns p size word)
    (hback : ∀ thread, .pool (.deallocate thread p size) ∉ ops)
    (hagain : ∀ q n v, .write q n word v ∉ ops) :
    (p, size) ∈ lp'.live ∧ lp'.memory.words word = lp.memory.words word := by
  induction hr generalizing mp with
  | nil lp => exact ⟨hp, rfl⟩
  | @cons lp lp₁ lp' op ops hok hst hr ih =>
    obtain ⟨lp₂, mp₁, hst', h₁, -, hkeeps⟩ := h.step hok
    obtain rfl := Option.some.inj (hst'.symm.trans hst)
    have hp₁ : (p, size) ∈ lp₂.live :=
      live_step hst (fun thread hop => hback thread (hop ▸ List.mem_cons_self)) hp
    obtain ⟨hlive, hrest⟩ := ih h₁ hp₁
      (fun thread hmem => hback thread (List.mem_cons_of_mem _ hmem))
      (fun q n v hmem => hagain q n v (List.mem_cons_of_mem _ hmem))
    refine ⟨hlive, hrest.trans ?_⟩
    cases op with
    | pool op => exact hkeeps (fun _ _ _ _ hop => nomatch hop) p size word hp hp₁ howns
    | write q n other value =>
      cases hst
      apply Function.update_of_ne
      rintro rfl
      exact hagain q n value List.mem_cons_self

/-- What a caller has written to its block it reads back, until it writes there again or
gives the block back: whatever other callers and the pool do in between, in other blocks, in
free ones and with the same pages. -/
theorem run_reads (w : Words) (ops ops' : List LinkedOp) (lp lp' : LinkedPool)
    (p size word value : Nat) (hr : Transition.Run step Ok (init w) ops lp)
    (hr' : Transition.Run step Ok lp (.write p size word value :: ops') lp')
    (hback : ∀ thread, .pool (.deallocate thread p size) ∉ ops')
    (hagain : ∀ q n v, .write q n word v ∉ ops') :
    (p, size) ∈ lp'.live ∧ lp'.memory.words word = value := by
  obtain ⟨mp, -, hstands⟩ := (init_stands w).of_run hr
  cases hr' with
  | cons hok hst hr' =>
    obtain ⟨lp₁, mp₁, hst₁, hstands₁, -, -⟩ := hstands.step hok
    obtain rfl := Option.some.inj (hst₁.symm.trans hst)
    cases hst
    obtain ⟨hlive, hword⟩ := hstands₁.reads hr' hok.1 hok.2 hback hagain
    refine ⟨hlive, hword.trans ?_⟩
    exact Function.update_self ..

/-- The other block of the span is handed out, written and given back. -/
theorem run_reads_neighbour : ∃ lp lp', Transition.Run step Ok (init fun word => word)
    [.pool (.create 0), .pool (.allocate 0 262144 0x100000)] lp ∧
      Transition.Run step Ok lp (.write 0x140000 262144 0x28000 7 ::
        [.pool (.allocate 0 262144 0x200000), .write 0x100000 262144 0x20000 9,
          .pool (.deallocate 0 0x100000 262144)]) lp' ∧
      (0x140000, 262144) ∈ lp'.live ∧ lp'.memory.words 0x28000 = 7 := by
  have hexec : (Transition.exec step Ok (init fun word => word)
      [.pool (.create 0), .pool (.allocate 0 262144 0x100000)]).map
      (fun lp => (Transition.exec step Ok lp (.write 0x140000 262144 0x28000 7 ::
        [.pool (.allocate 0 262144 0x200000), .write 0x100000 262144 0x20000 9,
          .pool (.deallocate 0 0x100000 262144)])).isSome) = some true := by
    decide +kernel
  obtain ⟨lp, hr, hnext⟩ := Transition.Run.exists_of_exec hexec
  obtain ⟨lp', hexec'⟩ := Option.isSome_iff_exists.mp hnext
  have hr' := Transition.Run.of_exec hexec'
  obtain ⟨hlive, hword⟩ := run_reads _ _ _ lp lp' _ _ _ _ hr hr' (by simp) (by simp)
  exact ⟨lp, lp', hr, hr', hlive, hword⟩

end LinkedPool

end Pool

end WWRaftKV
