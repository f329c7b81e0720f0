/-
The pool as a whole: its live blocks do not overlap, and its accounts are right.

A block of a span of the central cache is at home in the span, in the cache of a thread, or
live.  Every operation moves blocks between these places, and the used count of a span is
the number of its blocks that are not at home.
-/
import WWRaftKV.General.Run
import WWRaftKV.Pool.Threads

namespace WWRaftKV

namespace Pool

namespace MemoryPool

open CentralCache (Within)

/-- What the callers and the system keep to: a cache is made once, a live block is returned
with its size, through any cache, and the system returns a region that is new. -/
def Ok (mp : MemoryPool) : PoolOp → Prop
  | .create thread => (mp.threadCaches thread).isNone
  | .allocate thread size system =>
    (mp.threadCaches thread).isSome ∧ 1 ≤ size ∧ size ≤ maxMemorySize ∧
      mp.centralCache.pageCache.FreshRegion system
  | .deallocate thread p size => (mp.threadCaches thread).isSome ∧ (p, size) ∈ mp.live
  | .destroy thread => (mp.threadCaches thread).isSome

instance (mp : MemoryPool) (op : PoolOp) : Decidable (mp.Ok op) := by
  cases op <;> unfold Ok <;> infer_instance

structure Inv (mp : MemoryPool) (kind : SpanId → Kind) (loc : Addr → Place) : Prop where
  calm : ThreadCache.Calm mp.centralCache kind loc
  caches : ∀ t tc, mp.threadCaches t = some tc → tc.Inv mp.centralCache loc t
  owned : ∀ c t x, mp.centralCache.At loc c (.cache t) x → ∃ tc, mp.threadCaches t = some tc
  live : Lists (mp.live.map Prod.fst) fun x => ∃ c, mp.centralCache.At loc c .out x
  sizes : ∀ p size, (p, size) ∈ mp.live → 1 ≤ size ∧ size ≤ maxMemorySize ∧
    mp.centralCache.At loc (Size.sizeToIndex (Size.roundUp size)) .out p

section Steps

variable {mp : MemoryPool} {kind : SpanId → Kind} {loc : Addr → Place}

theorem init_inv : (init).Inv (fun _ => .free) (fun _ => .home) where
  calm :=
    { inv :=
        { pages := PageRun.init_inv.pages
          settled := PageRun.init_inv.settled
          clean := fun _ _ _ ha => nomatch ha
          nodup := fun _ => List.nodup_nil
          range := fun _ _ hs => absurd hs List.not_mem_nil
          oneClass := fun _ _ _ hs => absurd hs List.not_mem_nil
          busy := fun _ =>
            ⟨fun ⟨hk, _⟩ => (nomatch hk), fun ⟨_, hs⟩ => absurd hs List.not_mem_nil⟩
          chain := fun _ _ _ hs => absurd hs List.not_mem_nil
          used := fun _ _ _ hs => absurd hs List.not_mem_nil }
      inUse := fun _ _ _ hs => absurd hs List.not_mem_nil
      still := fun _ _ ⟨⟨_, _, hs, _⟩, _⟩ => absurd hs List.not_mem_nil }
  caches := fun _ _ ht => nomatch ht
  owned := fun _ _ _ ⟨⟨_, _, hs, _⟩, _⟩ => absurd hs List.not_mem_nil
  live := Lists.of_false fun _ ⟨_, ⟨_, _, hs, _⟩, _⟩ => absurd hs List.not_mem_nil
  sizes := fun _ _ hp => absurd hp List.not_mem_nil

/-- One cache has changed, and the others do not notice. -/
theorem Inv.update (h : mp.Inv kind loc) {cc' : CentralCache} {loc' : Addr → Place}
    {thread : Nat} {tc' : ThreadCache} (htc' : tc'.Inv cc' loc' thread)
    (hsame : ∀ t, t ≠ thread → ∀ c x,
      cc'.At loc' c (.cache t) x ↔ mp.centralCache.At loc c (.cache t) x) :
    (∀ t tc, Function.update mp.threadCaches thread (some tc') t = some tc →
      tc.Inv cc' loc' t) ∧
    ∀ c t x, cc'.At loc' c (.cache t) x →
      ∃ tc, Function.update mp.threadCaches thread (some tc') t = some tc := by
  constructor
  · intro t tc ht
    by_cases htt : t = thread
    · subst htt
      rw [Function.update_self] at ht
      obtain rfl := Option.some.inj ht
      exact htc'
    · rw [Function.update_of_ne htt] at ht
      exact (h.caches t tc ht).congr (hsame t htt)
  · intro c t x hx
    by_cases htt : t = thread
    · subst htt
      exact ⟨tc', Function.update_self ..⟩
    · rw [Function.update_of_ne htt]
      exact h.owned c t x ((hsame t htt c x).mp hx)

theorem Inv.create (h : mp.Inv kind loc) {thread : Nat}
    (hthread : (mp.threadCaches thread).isNone) :
    Inv
      { mp with
        threadCaches := Function.update mp.threadCaches thread (some ThreadCache.init) }
      kind loc := by
  have hnone : mp.threadCaches thread = none := Option.isNone_iff_eq_none.mp hthread
  have hinit : ThreadCache.init.Inv mp.centralCache loc thread := by
    constructor
    · intro c
      apply Lists.of_false
      intro x hx
      obtain ⟨tc, htc⟩ := h.owned c thread x hx
      exact nomatch hnone.symm.trans htc
    · intro c
      exact Nat.le_refl 1
  obtain ⟨hcaches, howned⟩ := h.update hinit fun t _ c x => Iff.rfl
  exact ⟨h.calm, hcaches, howned, h.live, h.sizes⟩

theorem Inv.allocate (h : mp.Inv kind loc) {thread size : Nat} {system : Addr}
    (hok : mp.Ok (.allocate thread size system)) :
    ∃ mp' kind' loc' p, mp.step (.allocate thread size system) = some mp' ∧ mp'.Inv kind' loc' ∧
      mp'.live = (p, size) :: mp.live ∧ Within mp.centralCache mp'.centralCache := by
  obtain ⟨hthread, hsize, hmax, hsystem⟩ := hok
  obtain ⟨tc, htc⟩ := Option.isSome_iff_exists.mp hthread
  obtain ⟨cc', kind', loc', tc', p, hrun, hcalm, htc', hnew, hout, hsame, hwithin⟩ :=
    (h.caches thread tc htc).allocate h.calm hsize hmax hsystem
  have hothers : ∀ t, t ≠ thread → ∀ c x,
      cc'.At loc' c (.cache t) x ↔ mp.centralCache.At loc c (.cache t) x := by
    intro t ht
    apply hsame
    refine ⟨⟨by simp, by simp, ?_⟩, by simp⟩
    intro heq
    exact ht (Place.cache.inj heq)
  obtain ⟨hcaches, howned⟩ := h.update htc' hothers
  refine ⟨{ centralCache := cc', threadCaches := Function.update mp.threadCaches thread (some tc'),
            live := (p, size) :: mp.live }, kind', loc', p, ?_,
    ⟨hcalm, hcaches, howned, ?_, ?_⟩, rfl, hwithin⟩
  · rw [MemoryPool.step, htc]
    simp only [Option.bind_eq_bind, Option.bind_some]
    rw [hrun]
    rfl
  · apply h.live.cons (x := p) hnew
    intro x
    simp only [hout]
    constructor
    · rintro ⟨c, hx | ⟨_, hx⟩⟩
      · exact .inr ⟨c, hx⟩
      · exact .inl hx
    · rintro (hx | ⟨c, hx⟩)
      · exact ⟨_, .inr ⟨rfl, hx⟩⟩
      · exact ⟨c, .inl hx⟩
  · intro q s hq
    rw [hout]
    rcases List.mem_cons.mp hq with heq | hq
    · obtain ⟨rfl, rfl⟩ := Prod.mk.inj heq
      exact ⟨hsize, hmax, .inr ⟨rfl, rfl⟩⟩
    · obtain ⟨hone, hle, hat⟩ := h.sizes q s hq
      exact ⟨hone, hle, .inl hat⟩

theorem Inv.deallocate (h : mp.Inv kind loc) {thread size : Nat} {p : Addr}
    (hok : mp.Ok (.deallocate thread p size)) :
    ∃ mp' kind' loc', mp.step (.deallocate thread p size) = some mp' ∧ mp'.Inv kind' loc' ∧
      Within mp'.centralCache mp.centralCache := by
  obtain ⟨hthread, hp⟩ := hok
  obtain ⟨tc, htc⟩ := Option.isSome_iff_exists.mp hthread
  obtain ⟨hsize, hmax, hat⟩ := h.sizes p size hp
  obtain ⟨cc', kind', loc', tc', hrun, hcalm, htc', hsame, hwithin⟩ :=
    (h.caches thread tc htc).deallocate h.calm hsize hmax hat
  have hothers : ∀ t, t ≠ thread → ∀ c x,
      cc'.At loc' c (.cache t) x ↔ mp.centralCache.At loc c (.cache t) x := by
    intro t ht c x
    rw [hsame (.cache t) ⟨by simp, by simp, fun heq => ht (Place.cache.inj heq)⟩]
    apply and_iff_left_of_imp
    rintro hx rfl
    exact nomatch hx.2.symm.trans hat.2
  have hout : ∀ c x, cc'.At loc' c .out x ↔ mp.centralCache.At loc c .out x ∧ x ≠ p :=
    hsame .out ⟨by decide, by decide, by simp⟩
  obtain ⟨hcaches, howned⟩ := h.update htc' hothers
  refine ⟨{ centralCache := cc', threadCaches := Function.update mp.threadCaches thread (some tc'),
            live := mp.live.erase (p, size) }, kind', loc', ?_,
    ⟨hcalm, hcaches, howned, ?_, ?_⟩, hwithin⟩
  · rw [MemoryPool.step, htc]
    simp only [Option.bind_eq_bind, Option.bind_some]
    rw [hrun]
    rfl
  · apply h.live.map_erase hp
    intro x
    simp only [hout]
    constructor
    · rintro ⟨c, hx, hne⟩
      exact ⟨⟨c, hx⟩, hne⟩
    · rintro ⟨⟨c, hx⟩, hne⟩
      exact ⟨c, hx, hne⟩
  · intro q s hq
    have hrest : Lists ((mp.live.erase (p, size)).map Prod.fst)
        fun x => (∃ c, mp.centralCache.At loc c .out x) ∧ x ≠ p :=
      h.live.map_erase hp fun y => Iff.rfl
    have hne : q ≠ p := ((hrest.mem q).mp (List.mem_map_of_mem hq)).2
    obtain ⟨hone, hle, hat⟩ := h.sizes q s (List.mem_of_mem_erase hq)
    exact ⟨hone, hle, (hout _ q).mpr ⟨hat, hne⟩⟩

theorem Inv.destroy (h : mp.Inv kind loc) {thread : Nat} (hok : mp.Ok (.destroy thread)) :
    ∃ mp' kind' loc', mp.step (.destroy thread) = some mp' ∧ mp'.Inv kind' loc' ∧
      Within mp'.centralCache mp.centralCache := by
  obtain ⟨tc, htc⟩ := Option.isSome_iff_exists.mp hok
  obtain ⟨cc', kind', loc', hrun, hcalm, hcache, hsame, hwithin⟩ :=
    (h.caches thread tc htc).drainLoop h.calm fun c hc => List.mem_range.mp hc
  have hout := hsame .out ⟨by decide, by decide, by simp⟩
  have hothers : ∀ t, t ≠ thread → ∀ c x,
      cc'.At loc' c (.cache t) x ↔ mp.centralCache.At loc c (.cache t) x := by
    intro t ht
    apply hsame
    exact ⟨by simp, by simp, fun heq => ht (Place.cache.inj heq)⟩
  -- nothing is left in the cache: its blocks are of the classes that the loop visits
  have hnone : ∀ c x, ¬ cc'.At loc' c (.cache thread) x := by
    intro c x hx
    obtain ⟨⟨⟨s, a, hs, _⟩, _⟩, hc⟩ := hcache c x hx
    exact hc (List.mem_range.mpr (h.calm.inv.range c s hs))
  refine ⟨{ mp with centralCache := cc'
                    threadCaches := Function.update mp.threadCaches thread none },
    kind', loc', ?_, ⟨hcalm, ?_, ?_, ?_, ?_⟩, hwithin⟩
  · rw [MemoryPool.step, htc]
    simp only [Option.bind_eq_bind, Option.bind_some]
    rw [ThreadCache.destroy, hrun]
    rfl
  · intro t tc₁ ht
    have htt : t ≠ thread := by
      rintro rfl
      exact nomatch (Function.update_self ..).symm.trans ht
    have ht' : mp.threadCaches t = some tc₁ := (Function.update_of_ne htt ..).symm.trans ht
    exact (h.caches t tc₁ ht').congr (hothers t htt)
  · intro c t x hx
    have htt : t ≠ thread := by
      rintro rfl
      exact hnone c x hx
    obtain ⟨tc₁, ht⟩ := h.owned c t x ((hothers t htt c x).mp hx)
    exact ⟨tc₁, (Function.update_of_ne htt ..).trans ht⟩
  · apply h.live.congr
    intro x
    exact exists_congr fun c => hout c x
  · intro p size hp
    obtain ⟨hone, hle, hat⟩ := h.sizes p size hp
    exact ⟨hone, hle, (hout _ p).mpr hat⟩

/-- An operation that is in order is defined, and it keeps the invariant.  It adds spans to
the central cache or takes some away. -/
theorem Inv.step (h : mp.Inv kind loc) {op : PoolOp} (hok : mp.Ok op) :
    ∃ mp' kind' loc', mp.step op = some mp' ∧ mp'.Inv kind' loc' ∧
      (Within mp.centralCache mp'.centralCache ∨ Within mp'.centralCache mp.centralCache) := by
  cases op with
  | create thread => exact ⟨_, kind, loc, rfl, h.create hok, .inl (Within.refl _)⟩
  | allocate thread size system =>
    obtain ⟨mp', kind', loc', _, hst, hinv, _, hwithin⟩ := h.allocate hok
    exact ⟨mp', kind', loc', hst, hinv, .inl hwithin⟩
  | deallocate thread p size =>
    obtain ⟨mp', kind', loc', hst, hinv, hwithin⟩ := h.deallocate hok
    exact ⟨mp', kind', loc', hst, hinv, .inr hwithin⟩
  | destroy thread =>
    obtain ⟨mp', kind', loc', hst, hinv, hwithin⟩ := h.destroy hok
    exact ⟨mp', kind', loc', hst, hinv, .inr hwithin⟩

/-- The invariant holds after every run. -/
theorem Inv.of_run {ops : List PoolOp} (hr : Transition.Run MemoryPool.step Ok init ops mp) :
    ∃ kind loc, mp.Inv kind loc := by
  apply hr.invariant (I := fun mp => ∃ kind loc, mp.Inv kind loc) _ ⟨_, _, init_inv⟩
  rintro s op t ⟨kind, loc, hs⟩ hok hst
  obtain ⟨t', kind', loc', ht', hinv, _⟩ := hs.step hok
  obtain rfl := Option.some.inj (ht'.symm.trans hst)
  exact ⟨kind', loc', hinv⟩

/-! ## Live blocks -/

/-- The bytes of the live blocks are apart, they are enough, and they lie in one busy span. -/
structure Disjoint (mp : MemoryPool) : Prop where
  apart : mp.live.Pairwise fun e f =>
    e.1 + Size.roundUp e.2 ≤ f.1 ∨ f.1 + Size.roundUp f.2 ≤ e.1
  enough : ∀ e ∈ mp.live, e.2 ≤ Size.roundUp e.2
  inside : ∀ e ∈ mp.live, ∃ k s a, mp.centralCache.pageCache.busySpanMap k = some s ∧
    mp.centralCache.pageCache.heap s = some a ∧ Span.idToPtr a.pageId ≤ e.1 ∧
    e.1 + Size.roundUp e.2 ≤ Span.idToPtr (a.pageId + a.pageCount)

/-- A live block is a block of its class. -/
theorem Inv.block_of_live (h : mp.Inv kind loc) {p : Addr} {size : Nat}
    (hp : (p, size) ∈ mp.live) :
    ∃ c, Size.indexToSize c = Size.roundUp size ∧ mp.centralCache.At loc c .out p := by
  obtain ⟨hone, hmax, hat⟩ := h.sizes p size hp
  exact ⟨_, (Size.indexToSize_roundUp hone hmax).2, hat⟩

/-- The page cache knows a span of the central cache by its first page. -/
theorem Inv.busy_iff (h : mp.Inv kind loc) (s : SpanId) :
    (∃ k, mp.centralCache.pageCache.busySpanMap k = some s) ↔
      ∃ c, s ∈ mp.centralCache.spans c := by
  have hpages := h.calm.inv.pages
  rw [← h.calm.inv.busy s]
  constructor
  · rintro ⟨k, hk⟩
    obtain ⟨e, ⟨hkind, he⟩, _⟩ := (hpages.busyMap k s).mp hk
    obtain ⟨a, ha, _⟩ := PageCache.heap_of_extents he
    exact ⟨hkind, a, ha⟩
  · rintro ⟨hkind, a, ha⟩
    refine ⟨a.pageId, (hpages.busyMap _ s).mpr ?_⟩
    rw [PageCache.ends_iff ha]
    exact ⟨hkind, (PageCache.isEnd_extent (hpages.pos ha)).mpr (.inl rfl)⟩

theorem Inv.disjoint (h : mp.Inv kind loc) : mp.Disjoint where
  apart := by
    have hnodup : mp.live.Pairwise fun e f => e.1 ≠ f.1 := List.pairwise_map.mp h.live.nodup
    apply hnodup.imp_of_mem
    rintro ⟨p, size⟩ ⟨q, size'⟩ hp hq hne
    obtain ⟨c, hround, ⟨s, a, hs, ha, hx⟩, _⟩ := h.block_of_live hp
    obtain ⟨d, hround', ⟨t, b, ht, hb, hy⟩, _⟩ := h.block_of_live hq
    dsimp only at hne ⊢
    rw [← hround, ← hround']
    by_cases hst : s = t
    · subst hst
      obtain rfl := h.calm.inv.oneClass c d s hs ht
      obtain rfl := Option.some.inj (ha.symm.trans hb)
      exact block_apart hx hy hne
    · -- two spans have no page in common, and a block lies within the pages of its span
      have hpages := h.calm.inv.pages
      have horder := Extent.before_or_after (hpages.pos ha) (hpages.pos hb) fun k hk hk' =>
        hst (hpages.tiles.apart s t _ _ k (PageCache.extents_of_heap ha)
          (PageCache.extents_of_heap hb) hk hk')
      change a.pageId + a.pageCount ≤ b.pageId ∨ b.pageId + b.pageCount ≤ a.pageId at horder
      have hin := block_inside hx
      have hin' := block_inside hy
      omega
  enough := by
    rintro ⟨p, size⟩ hp
    obtain ⟨_, hmax, _⟩ := h.sizes p size hp
    exact Size.le_roundUp hmax
  inside := by
    rintro ⟨p, size⟩ hp
    obtain ⟨c, hround, ⟨s, a, hs, ha, hx⟩, _⟩ := h.block_of_live hp
    obtain ⟨k, hk⟩ := (h.busy_iff s).mpr ⟨c, hs⟩
    refine ⟨k, s, a, hk, ha, ?_⟩
    rw [idToPtr_eq, idToPtr_eq]
    dsimp only
    rw [← hround]
    exact block_inside hx

/-! ## Accounts -/

/-- The block is live, or it sits in the cache of a thread. -/
def Away (mp : MemoryPool) (x : Addr) : Prop :=
  (∃ size, (x, size) ∈ mp.live) ∨ ∃ t tc c, mp.threadCaches t = some tc ∧ x ∈ (tc c).chain

/-- The used count of a span is the number of its blocks that are away, and its free list
holds the others.  The busy spans are those of the central cache. -/
structure Accounts (mp : MemoryPool) : Prop where
  held : ∀ c s, s ∈ mp.centralCache.spans c → ∃ a away,
    mp.centralCache.pageCache.heap s = some a ∧
    Lists away (fun x => x ∈ CentralCache.blocksOf a (Size.indexToSize c) ∧ mp.Away x) ∧
    a.used = away.length ∧ away ≠ [] ∧
    Lists a.freeList.chain fun x =>
      x ∈ CentralCache.blocksOf a (Size.indexToSize c) ∧ ¬ mp.Away x
  block : ∀ x, mp.Away x → ∃ c, mp.centralCache.IsBlock c x
  notBoth : ∀ p size t tc c, (p, size) ∈ mp.live → mp.threadCaches t = some tc →
    p ∉ (tc c).chain
  busy : ∀ s, (∃ k, mp.centralCache.pageCache.busySpanMap k = some s) ↔
    ∃ c, s ∈ mp.centralCache.spans c

theorem Inv.away_iff (h : mp.Inv kind loc) (x : Addr) :
    mp.Away x ↔ ∃ c, mp.centralCache.IsBlock c x ∧ loc x ≠ .home := by
  constructor
  · rintro (⟨size, hlive⟩ | ⟨t, tc, c, ht, hx⟩)
    · obtain ⟨_, _, hblock, hl⟩ := h.sizes x size hlive
      exact ⟨_, hblock, by simp [hl]⟩
    · obtain ⟨hblock, hl⟩ := ((h.caches t tc ht).chain c |>.mem x).mp hx
      exact ⟨c, hblock, by simp [hl]⟩
  · rintro ⟨c, hblock, hl⟩
    cases hplace : loc x with
    | home => exact absurd hplace hl
    | moving => exact absurd ⟨hblock, hplace⟩ (h.calm.still c x)
    | out =>
      obtain ⟨⟨y, size⟩, hlive, heq⟩ := List.mem_map.mp ((h.live.mem x).mpr ⟨c, hblock, hplace⟩)
      obtain rfl : y = x := heq
      exact .inl ⟨size, hlive⟩
    | cache t =>
      obtain ⟨tc, ht⟩ := h.owned c t x ⟨hblock, hplace⟩
      exact .inr ⟨t, tc, c, ht, ((h.caches t tc ht).chain c |>.mem x).mpr ⟨hblock, hplace⟩⟩

/-- Of the blocks of a span, those that are away are those not at home. -/
theorem Inv.away_of_block (h : mp.Inv kind loc) {c : Nat} {s : SpanId} {a : Span} {x : Addr}
    (hs : s ∈ mp.centralCache.spans c) (ha : mp.centralCache.pageCache.heap s = some a)
    (hx : x ∈ CentralCache.blocksOf a (Size.indexToSize c)) : mp.Away x ↔ loc x ≠ .home := by
  rw [h.away_iff]
  constructor
  · rintro ⟨_, _, hl⟩
    exact hl
  · exact fun hl => ⟨c, ⟨s, a, hs, ha, hx⟩, hl⟩

theorem Inv.accounts (h : mp.Inv kind loc) : mp.Accounts where
  held := by
    intro c s hs
    obtain ⟨_, a, ha⟩ := h.calm.inv.span hs
    have hchain := h.calm.inv.chain c s a hs ha
    have hused := h.calm.inv.used c s a hs ha
    have hpos := h.calm.inUse c s a hs ha fun e => nomatch e
    have hblocks : Lists (CentralCache.blocksOf a (Size.indexToSize c))
        (· ∈ CentralCache.blocksOf a (Size.indexToSize c)) :=
      ⟨blocksOf_nodup (h.calm.inv.size_pos hs), fun _ => Iff.rfl⟩
    obtain ⟨away, haway, hlen⟩ := hblocks.rest hchain fun x hx => hx.1
    have hlist : Lists away fun x =>
        x ∈ CentralCache.blocksOf a (Size.indexToSize c) ∧ mp.Away x := by
      apply haway.congr
      intro x
      apply and_congr_right
      intro hx
      rw [h.away_of_block hs ha hx]
      simp [hx]
    refine ⟨a, away, ha, hlist, by omega, ?_, ?_⟩
    · rintro rfl
      rw [List.length_nil] at hlen
      omega
    · apply hchain.congr
      intro x
      apply and_congr_right
      intro hx
      rw [h.away_of_block hs ha hx, not_not]
  block := by
    intro x hx
    obtain ⟨c, hblock, _⟩ := (h.away_iff x).mp hx
    exact ⟨c, hblock⟩
  notBoth := by
    intro p size t tc c hlive ht hp
    obtain ⟨_, _, hout⟩ := h.sizes p size hlive
    have hin := ((h.caches t tc ht).chain c |>.mem p).mp hp
    exact nomatch hout.2.symm.trans hin.2
  busy := h.busy_iff

/-- After the operation a span that was held is still busy exactly if one of its blocks is
away. -/
def Settles (mp mp' : MemoryPool) : Prop :=
  ∀ c s a, s ∈ mp.centralCache.spans c → mp.centralCache.pageCache.heap s = some a →
    ((∃ k, mp'.centralCache.pageCache.busySpanMap k = some s) ↔
      ∃ x ∈ CentralCache.blocksOf a (Size.indexToSize c), mp'.Away x)

/-- A span that is still held with its pages has a block that is away. -/
theorem Accounts.exists_away {mp' : MemoryPool} (h : mp'.Accounts) {c : Nat} {s : SpanId}
    {a a' : Span} (hs : s ∈ mp'.centralCache.spans c)
    (ha : mp'.centralCache.pageCache.heap s = some a') (hext : a'.extent = a.extent) :
    ∃ x ∈ CentralCache.blocksOf a (Size.indexToSize c), mp'.Away x := by
  obtain ⟨b, away, hb, haway, _, hne, _⟩ := h.held c s hs
  obtain rfl := Option.some.inj (ha.symm.trans hb)
  obtain ⟨x, rest, rfl⟩ := List.exists_cons_of_ne_nil hne
  obtain ⟨hx, haway⟩ := (haway.mem x).mp List.mem_cons_self
  exact ⟨x, blocksOf_congr hext ▸ hx, haway⟩

theorem Inv.settles (h : mp.Inv kind loc) {mp' : MemoryPool} {kind' : SpanId → Kind}
    {loc' : Addr → Place} (h' : mp'.Inv kind' loc')
    (hwithin : Within mp.centralCache mp'.centralCache ∨
      Within mp'.centralCache mp.centralCache) : mp.Settles mp' := by
  intro c s a hs ha
  rw [h'.busy_iff]
  rcases hwithin with hwithin | hwithin
  · obtain ⟨hs', a', ha', hext⟩ := hwithin c s a hs ha
    exact ⟨fun _ => h'.accounts.exists_away hs' ha' hext, fun _ => ⟨c, hs'⟩⟩
  · constructor
    · rintro ⟨d, hs'⟩
      obtain ⟨_, a', ha'⟩ := h'.calm.inv.span hs'
      obtain ⟨hold, b, hb, hext⟩ := hwithin d s a' hs' ha'
      obtain rfl := Option.some.inj (ha.symm.trans hb)
      obtain rfl := h.calm.inv.oneClass c d s hs hold
      exact h'.accounts.exists_away hs' ha' hext.symm
    · rintro ⟨x, hx, haway⟩
      -- the span of the block was held before, and the block lies in one span only
      obtain ⟨d, t, b', ht', hb', hx'⟩ := h'.accounts.block x haway
      obtain ⟨ht, b, hb, hext⟩ := hwithin d t b' ht' hb'
      rw [← blocksOf_congr hext] at hx'
      obtain rfl := h.calm.inv.block_unique hs ht ha hb hx hx'
      exact ⟨d, ht'⟩

/-! ## The cache of another thread -/

/-- The thread whose cache an operation runs on. -/
def thread : PoolOp → Nat
  | .create thread => thread
  | .allocate thread _ _ => thread
  | .deallocate thread _ _ => thread
  | .destroy thread => thread

/-- An operation leaves the caches of the other threads alone. -/
theorem step_threadCaches {mp' : MemoryPool} {op : PoolOp} {t : Nat}
    (hst : mp.step op = some mp') (ht : t ≠ thread op) :
    mp'.threadCaches t = mp.threadCaches t := by
  cases op with
  | create n =>
    obtain rfl := Option.some.inj hst
    exact Function.update_of_ne ht ..
  | allocate n size system =>
    obtain ⟨tc, _, hst⟩ := Option.bind_eq_some_iff.mp hst
    obtain ⟨r, _, hst⟩ := Option.bind_eq_some_iff.mp hst
    obtain rfl := Option.some.inj hst
    exact Function.update_of_ne ht ..
  | deallocate n p size =>
    obtain ⟨tc, _, hst⟩ := Option.bind_eq_some_iff.mp hst
    obtain ⟨r, _, hst⟩ := Option.bind_eq_some_iff.mp hst
    obtain rfl := Option.some.inj hst
    exact Function.update_of_ne ht ..
  | destroy n =>
    obtain ⟨tc, _, hst⟩ := Option.bind_eq_some_iff.mp hst
    obtain ⟨r, _, hst⟩ := Option.bind_eq_some_iff.mp hst
    obtain rfl := Option.some.inj hst
    exact Function.update_of_ne ht ..

/-- A thread without operations has no cache. -/
theorem run_threadCaches {mp' : MemoryPool} {ops : List PoolOp}
    (hr : Transition.Run MemoryPool.step Ok mp ops mp') {t : Nat}
    (ht : ∀ op ∈ ops, t ≠ thread op) : mp'.threadCaches t = mp.threadCaches t := by
  induction hr with
  | nil mp => rfl
  | cons hok hst hr ih =>
    rw [ih fun op hop => ht op (List.mem_cons_of_mem _ hop)]
    exact step_threadCaches hst (ht _ List.mem_cons_self)

end Steps

/-- After every sequence of operations the live blocks do not overlap, and the next operation
is defined: an allocation hands out a block. -/
theorem live_apart (ops : List PoolOp) (mp : MemoryPool)
    (hr : Transition.Run step Ok init ops mp) :
    mp.Disjoint ∧ (∀ op, mp.Ok op → ∃ mp', mp.step op = some mp') ∧
      ∀ thread size system, mp.Ok (.allocate thread size system) →
        ∃ mp' p, mp.step (.allocate thread size system) = some mp' ∧
          mp'.live = (p, size) :: mp.live := by
  obtain ⟨kind, loc, h⟩ := Inv.of_run hr
  refine ⟨h.disjoint, ?_, ?_⟩
  · intro op hok
    obtain ⟨mp', _, _, hst, _⟩ := h.step hok
    exact ⟨mp', hst⟩
  · intro thread size system hok
    obtain ⟨mp', _, _, p, hst, _, hlive, _⟩ := h.allocate hok
    exact ⟨mp', p, hst, hlive⟩

/-- Two blocks of one span, and one of them comes back through another cache. -/
theorem live_apart_two : ∃ mp, Transition.Run step Ok init
    [.create 0, .create 1, .allocate 0 262144 0x100000, .allocate 0 262144 0x180000,
      .deallocate 1 0x140000 262144] mp ∧ mp.live = [(0x100000, 262144)] ∧ mp.Disjoint := by
  obtain ⟨mp, hr, hlive⟩ := Transition.Run.exists_of_exec
    (p := fun mp : MemoryPool => mp.live = [(0x100000, 262144)])
    (show (Transition.exec step Ok init
      [.create 0, .create 1, .allocate 0 262144 0x100000, .allocate 0 262144 0x180000,
        .deallocate 1 0x140000 262144]).map
        (fun mp => decide (mp.live = [(0x100000, 262144)])) = some true from by decide)
  exact ⟨mp, hr, of_decide_eq_true hlive, (live_apart _ mp hr).1⟩

/-- After every sequence of operations the used counts are right, a span goes back to the
page cache exactly when all its blocks are home, and without live blocks and caches no span
is busy. -/
theorem accounts_balance (ops : List PoolOp) (mp : MemoryPool)
    (hr : Transition.Run step Ok init ops mp) :
    mp.Accounts ∧ (∀ op mp', mp.Ok op → mp.step op = some mp' → mp.Settles mp') ∧
      (mp.live = [] → (∀ t, mp.threadCaches t = none) →
        ∀ k, mp.centralCache.pageCache.busySpanMap k = none) := by
  obtain ⟨kind, loc, h⟩ := Inv.of_run hr
  refine ⟨h.accounts, ?_, ?_⟩
  · intro op mp' hok hst
    obtain ⟨t, kind', loc', ht, hinv, hwithin⟩ := h.step hok
    obtain rfl := Option.some.inj (ht.symm.trans hst)
    exact h.settles hinv hwithin
  · intro hlive hcaches k
    cases hk : mp.centralCache.pageCache.busySpanMap k with
    | none => rfl
    | some s =>
      obtain ⟨c, hs⟩ := (h.accounts.busy s).mp ⟨k, hk⟩
      obtain ⟨_, a, ha⟩ := h.calm.inv.span hs
      obtain ⟨x, _, haway⟩ := h.accounts.exists_away hs ha rfl
      rcases haway with ⟨size, hx⟩ | ⟨t, tc, _, ht, _⟩
      · rw [hlive] at hx
        exact absurd hx List.not_mem_nil
      · exact nomatch (hcaches t).symm.trans ht

/-- A block is handed out and returned, and the thread ends. -/
theorem accounts_balance_drained : ∃ mp, Transition.Run step Ok init
    [.create 0, .allocate 0 262144 0x100000, .deallocate 0 0x140000 262144, .destroy 0] mp ∧
      mp.Accounts ∧ ∀ k, mp.centralCache.pageCache.busySpanMap k = none := by
  obtain ⟨mp, hr, hend⟩ := Transition.Run.exists_of_exec
    (p := fun mp : MemoryPool => mp.live = [] ∧ (mp.threadCaches 0).isNone)
    (show (Transition.exec step Ok init
      [.create 0, .allocate 0 262144 0x100000, .deallocate 0 0x140000 262144, .destroy 0]).map
        (fun mp => decide (mp.live = [] ∧ (mp.threadCaches 0).isNone)) = some true from by
        decide +kernel)
  obtain ⟨hlive, hzero⟩ := of_decide_eq_true hend
  obtain ⟨haccounts, _, hdrained⟩ := accounts_balance _ mp hr
  refine ⟨mp, hr, haccounts, hdrained hlive ?_⟩
  intro t
  by_cases ht : t = 0
  · rw [ht]
    exact Option.isNone_iff_eq_none.mp hzero
  · rw [run_threadCaches hr (by simp [thread, ht])]
    rfl

end MemoryPool

end Pool

end WWRaftKV
