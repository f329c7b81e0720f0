/-
The central cache while spans are in flight.

A span is in flight while one thread has it and no list does: it has come from the page
cache and is not yet in a list, or it has left its list and is not yet back in the page
cache.  Every step of a thread touches one span at most, so the facts about the spans are
kept span by span, and a step proves them for its own span only.
-/
import WWRaftKV.Pool.Blocks

namespace WWRaftKV

namespace Pool

namespace CentralCache

/-- What is known of one span. -/
structure SpanInv (cc : CentralCache) (kind : SpanId → Kind) (loc : Addr → Place)
    (fly : SpanId → Prop) (s : SpanId) : Prop where
  range : ∀ c, s ∈ cc.spans c → c < maxArraySize
  oneClass : ∀ c d, s ∈ cc.spans c → s ∈ cc.spans d → c = d
  busy : (kind s = .busy ∧ ∃ a, cc.pageCache.heap s = some a) ↔
    (∃ c, s ∈ cc.spans c) ∨ fly s
  apart : ∀ c, s ∈ cc.spans c → ¬ fly s
  chain : ∀ c a, s ∈ cc.spans c → cc.pageCache.heap s = some a →
    Lists a.freeList.chain fun x => x ∈ blocksOf a (Size.indexToSize c) ∧ loc x = .home
  used : ∀ c a, s ∈ cc.spans c → cc.pageCache.heap s = some a →
    a.used + a.freeList.chain.length = (blocksOf a (Size.indexToSize c)).length

/-- The central cache, with the spans `fly` in flight. -/
structure Holds (cc : CentralCache) (kind : SpanId → Kind) (loc : Addr → Place)
    (fly : SpanId → Prop) : Prop where
  pages : cc.pageCache.Inv kind
  settled : cc.pageCache.Settled kind
  clean : cc.pageCache.Clean kind
  nodup : ∀ c, (cc.spans c).Nodup
  spans : ∀ s, cc.SpanInv kind loc fly s

variable {cc cc' : CentralCache} {kind kind' : SpanId → Kind} {loc loc' : Addr → Place}
  {fly fly' : SpanId → Prop} {c d : Nat} {s t : SpanId} {o : Option SpanId} {a b : Span}
  {x : Addr}

theorem Holds.congr (h : cc.Holds kind loc fly) (hfly : ∀ t, fly' t ↔ fly t) :
    cc.Holds kind loc fly' := by
  have heq : fly' = fly := funext fun t => propext (hfly t)
  rw [heq]
  exact h

/-- Without a span in flight these are the facts about the sequential central cache. -/
theorem holds_iff_inv : cc.Holds kind loc (fun _ => False) ↔ cc.Inv kind loc := by
  constructor
  · intro h
    exact
      { pages := h.pages
        settled := h.settled
        clean := h.clean
        nodup := h.nodup
        range := fun c s => (h.spans s).range c
        oneClass := fun c d s => (h.spans s).oneClass c d
        busy := fun s => (h.spans s).busy.trans (or_iff_left id)
        chain := fun c s a => (h.spans s).chain c a
        used := fun c s a => (h.spans s).used c a }
  · intro h
    refine ⟨h.pages, h.settled, h.clean, h.nodup, fun s => ?_⟩
    exact
      { range := fun c => h.range c s
        oneClass := fun c d => h.oneClass c d s
        busy := (h.busy s).trans (or_iff_left id).symm
        apart := fun _ _ => id
        chain := fun c a => h.chain c s a
        used := fun c a => h.used c s a }

/-! ## Reading the state -/

theorem Holds.listed (h : cc.Holds kind loc fly) (hs : s ∈ cc.spans c) :
    kind s = .busy ∧ ∃ a, cc.pageCache.heap s = some a :=
  (h.spans s).busy.mpr (.inl ⟨c, hs⟩)

theorem Holds.flying (h : cc.Holds kind loc fly) (hs : fly s) :
    kind s = .busy ∧ ∃ a, cc.pageCache.heap s = some a :=
  (h.spans s).busy.mpr (.inr hs)

theorem Holds.unlisted (h : cc.Holds kind loc fly) (hs : fly s) (c : Nat) : s ∉ cc.spans c :=
  fun hc => (h.spans s).apart c hc hs

theorem Holds.size_pos (h : cc.Holds kind loc fly) (hs : s ∈ cc.spans c) :
    0 < Size.indexToSize c := by
  have := (Size.indexToSize_bounds ((h.spans s).range c hs)).1
  omega

/-- Two spans of the heap have no page in common. -/
theorem Holds.page_unique (h : cc.Holds kind loc fly) (ha : cc.pageCache.heap s = some a)
    (hb : cc.pageCache.heap t = some b) {k : Nat} (hk : a.extent.Covers k)
    (hk' : b.extent.Covers k) : s = t :=
  h.pages.tiles.apart s t _ _ k (PageCache.extents_of_heap ha) (PageCache.extents_of_heap hb) hk
    hk'

/-- A block lies in one span only. -/
theorem Holds.block_unique (h : cc.Holds kind loc fly) (hs : s ∈ cc.spans c)
    (ht : t ∈ cc.spans d) (ha : cc.pageCache.heap s = some a)
    (hb : cc.pageCache.heap t = some b) (hx : x ∈ blocksOf a (Size.indexToSize c))
    (hy : x ∈ blocksOf b (Size.indexToSize d)) : s = t :=
  h.page_unique ha hb (block_covers (h.size_pos hs) hx) (block_covers (h.size_pos ht) hy)

/-- A block is of one class only. -/
theorem Holds.class_unique (h : cc.Holds kind loc fly) (hc : cc.IsBlock c x)
    (hd : cc.IsBlock d x) : c = d := by
  obtain ⟨s, a, hs, ha, hx⟩ := hc
  obtain ⟨t, b, ht, hb, hy⟩ := hd
  obtain rfl := h.block_unique hs ht ha hb hx hy
  exact (h.spans s).oneClass c d hs ht

/-- The page cache finds the span of a block. -/
theorem Holds.objectToSpan (h : cc.Holds kind loc fly) (hs : s ∈ cc.spans c)
    (ha : cc.pageCache.heap s = some a) (hx : x ∈ blocksOf a (Size.indexToSize c)) :
    cc.pageCache.objectToSpan x = some (some s) := by
  obtain ⟨r, hr, hspec⟩ := h.pages.objectToSpan x
  rw [hr, (hspec s).mpr ⟨(h.listed hs).1, a, ha, block_covers (h.size_pos hs) hx⟩]

/-- A block that is away is counted as used. -/
theorem Holds.used_pos (h : cc.Holds kind loc fly) (hs : s ∈ cc.spans c)
    (ha : cc.pageCache.heap s = some a) (hx : x ∈ blocksOf a (Size.indexToSize c))
    (haway : loc x ≠ .home) : 0 < a.used := by
  have hcount := (h.spans s).used c a hs ha
  have hblocks : Lists (blocksOf a (Size.indexToSize c)) (· ∈ blocksOf a (Size.indexToSize c)) :=
    ⟨blocksOf_nodup (h.size_pos hs), fun _ => Iff.rfl⟩
  rcases Nat.eq_zero_or_pos a.used with hzero | hpos
  · have hhome := ((h.spans s).chain c a hs ha).mem_of_length hblocks (fun _ hy => hy.1)
      (by omega) hx
    exact absurd hhome.2 haway
  · exact hpos

/-- Every block of a span that is not in use is at home. -/
theorem Holds.all_home (h : cc.Holds kind loc fly) (hs : s ∈ cc.spans c)
    (ha : cc.pageCache.heap s = some a) (hzero : a.used = 0) :
    ∀ y ∈ blocksOf a (Size.indexToSize c), loc y = .home := by
  intro y hy
  by_contra haway
  have := h.used_pos hs ha hy haway
  omega

theorem Holds.used_le (h : cc.Holds kind loc fly) (hs : s ∈ cc.spans c)
    (ha : cc.pageCache.heap s = some a) : a.used ≤ 128 * 4096 := by
  have hused := (h.spans s).used c a hs ha
  have hcount : a.pageCount ≤ 128 := h.pages.count_le ha
  have hdiv := Nat.div_le_self (a.pageCount * 4096) (Size.indexToSize c)
  rw [blocksOf_length] at hused
  omega

/-! ## One span changes -/

/-- The other busy spans are as they were. -/
theorem AgreeOff.heap_busy (hoff : AgreeOff s cc kind cc' kind')
    (hk : kind t = .busy ∧ ∃ a, cc.pageCache.heap t = some a) (hts : t ≠ s) :
    cc'.pageCache.heap t = some b ↔ cc.pageCache.heap t = some b := by
  obtain ⟨hk, e, he⟩ := hk
  constructor
  · intro hb
    have he' := ((hoff.others t e hts).mpr ⟨hk, he⟩).2
    rw [he, ← he', hb]
  · exact fun hb => ((hoff.others t b hts).mpr ⟨hk, hb⟩).2

section Off

variable (hoff : AgreeOff s cc kind cc' kind') (h : cc.Holds kind loc fly)

include hoff h

/-- The facts about the span that changes are enough. -/
theorem Holds.of_agree (hpages : cc'.pageCache.Inv kind')
    (hsettled : cc'.pageCache.Settled kind') (hclean : cc'.pageCache.Clean kind')
    (hnodup : ∀ c, (cc'.spans c).Nodup) (hs : cc'.SpanInv kind' loc' fly' s)
    (hfly : ∀ t, t ≠ s → (fly' t ↔ fly t))
    (hloc : ∀ t c a x, t ≠ s → t ∈ cc.spans c → cc.pageCache.heap t = some a →
      x ∈ blocksOf a (Size.indexToSize c) → (loc' x = .home ↔ loc x = .home)) :
    cc'.Holds kind' loc' fly' := by
  refine ⟨hpages, hsettled, hclean, hnodup, fun t => ?_⟩
  by_cases hts : t = s
  · rw [hts]
    exact hs
  have hmem : ∀ c, t ∈ cc'.spans c ↔ t ∈ cc.spans c := fun c => hoff.mem c t hts
  have hheap : ∀ {c a}, t ∈ cc.spans c → cc'.pageCache.heap t = some a →
      cc.pageCache.heap t = some a :=
    fun ht ha => (hoff.heap_busy (h.listed ht) hts).mp ha
  constructor
  case range => exact fun c ht => (h.spans t).range c ((hmem c).mp ht)
  case oneClass =>
    exact fun c d ht ht' => (h.spans t).oneClass c d ((hmem c).mp ht) ((hmem d).mp ht')
  case busy =>
    have hlists : (∃ c, t ∈ cc'.spans c) ↔ ∃ c, t ∈ cc.spans c := exists_congr hmem
    rw [hlists, hfly t hts, ← (h.spans t).busy, ← exists_and_left, ← exists_and_left]
    exact exists_congr fun e => hoff.others t e hts
  case apart =>
    intro c ht
    rw [hfly t hts]
    exact (h.spans t).apart c ((hmem c).mp ht)
  case chain =>
    intro c a ht ha
    have ht' := (hmem c).mp ht
    have ha' := hheap ht' ha
    apply ((h.spans t).chain c a ht' ha').congr
    exact fun x => and_congr_right fun hx => hloc t c a x hts ht' ha' hx
  case used =>
    intro c a ht ha
    have ht' := (hmem c).mp ht
    exact (h.spans t).used c a ht' (hheap ht' ha)

/-- A place where no block of the changed span is, before and after. -/
theorem Holds.at_off {v : Place}
    (hbefore : ∀ d a x, s ∈ cc.spans d → cc.pageCache.heap s = some a →
      x ∈ blocksOf a (Size.indexToSize d) → loc x ≠ v)
    (hafter : ∀ d a x, s ∈ cc'.spans d → cc'.pageCache.heap s = some a →
      x ∈ blocksOf a (Size.indexToSize d) → loc' x ≠ v)
    (hloc : ∀ d t a x, t ≠ s → t ∈ cc.spans d → cc.pageCache.heap t = some a →
      x ∈ blocksOf a (Size.indexToSize d) → loc' x = loc x) (d : Nat) (x : Addr) :
    cc'.At loc' d v x ↔ cc.At loc d v x := by
  constructor
  · rintro ⟨⟨t, b, ht, hb, hx⟩, hl⟩
    have hts : t ≠ s := by
      rintro rfl
      exact hafter d b x ht hb hx hl
    have ht' := (hoff.mem d t hts).mp ht
    have hb' := (hoff.heap_busy (h.listed ht') hts).mp hb
    rw [hloc d t b x hts ht' hb' hx] at hl
    exact ⟨⟨t, b, ht', hb', hx⟩, hl⟩
  · rintro ⟨⟨t, b, ht, hb, hx⟩, hl⟩
    have hts : t ≠ s := by
      rintro rfl
      exact hbefore d b x ht hb hx hl
    have ht' := (hoff.mem d t hts).mpr ht
    have hb' := (hoff.heap_busy (h.listed ht) hts).mpr hb
    rw [← hloc d t b x hts ht hb hx] at hl
    exact ⟨⟨t, b, ht', hb', hx⟩, hl⟩

end Off

/-- What other threads have is left alone: `s` is the span of the step, and blocks at the
places `V` stay where they are. -/
structure Spares (cc : CentralCache) (loc : Addr → Place) (fly : SpanId → Prop)
    (cc' : CentralCache) (loc' : Addr → Place) (s : Option SpanId) (V : Place → Prop) :
    Prop where
  flying : ∀ t a, s ≠ some t → fly t → cc.pageCache.heap t = some a →
    cc'.pageCache.heap t = some a
  listed : ∀ c t a x, t ∈ cc.spans c → cc.pageCache.heap t = some a →
    x ∈ blocksOf a (Size.indexToSize c) → V (loc x) →
    t ∈ cc'.spans c ∧ ∃ a', cc'.pageCache.heap t = some a' ∧ a'.extent = a.extent
  same : ∀ v, V v → ∀ c x, cc'.At loc' c v x ↔ cc.At loc c v x

theorem Spares.refl (cc : CentralCache) (loc : Addr → Place) (fly : SpanId → Prop)
    (s : Option SpanId) (V : Place → Prop) : Spares cc loc fly cc loc s V where
  flying := fun _ _ _ _ ha => ha
  listed := fun _ _ a _ ht ha _ _ => ⟨ht, a, ha, rfl⟩
  same := fun _ _ _ _ => Iff.rfl

theorem Spares.mono {V V' : Place → Prop} (h : Spares cc loc fly cc' loc' o V)
    (hV : ∀ v, V' v → V v) : Spares cc loc fly cc' loc' o V' where
  flying := h.flying
  listed := fun c t a x ht ha hx hv => h.listed c t a x ht ha hx (hV _ hv)
  same := fun v hv => h.same v (hV v hv)

/-- Two steps on one span. -/
theorem Spares.trans {cc₁ cc₂ : CentralCache} {loc₁ loc₂ : Addr → Place}
    {fly₁ : SpanId → Prop} {V : Place → Prop} (h₁ : Spares cc loc fly cc₁ loc₁ (some s) V)
    (h₂ : Spares cc₁ loc₁ fly₁ cc₂ loc₂ (some s) V) (hfly : ∀ t, t ≠ s → fly t → fly₁ t) :
    Spares cc loc fly cc₂ loc₂ (some s) V where
  flying := by
    intro t a hts ht ha
    have hne : t ≠ s := fun e => hts (congrArg some e.symm)
    exact h₂.flying t a hts (hfly t hne ht) (h₁.flying t a hts ht ha)
  listed := by
    intro c t a x ht ha hx hV
    obtain ⟨ht₁, a₁, ha₁, hext₁⟩ := h₁.listed c t a x ht ha hx hV
    have hloc : loc₁ x = loc x := ((h₁.same _ hV c x).mpr ⟨⟨t, a, ht, ha, hx⟩, rfl⟩).2
    obtain ⟨ht₂, a₂, ha₂, hext₂⟩ :=
      h₂.listed c t a₁ x ht₁ ha₁ (blocksOf_congr hext₁ ▸ hx) (hloc.symm ▸ hV)
    exact ⟨ht₂, a₂, ha₂, hext₂.trans hext₁⟩
  same := fun v hv c x => (h₂.same v hv c x).trans (h₁.same v hv c x)

/-- A step on a span none of whose blocks is away. -/
theorem Holds.spares_off (hoff : AgreeOff s cc kind cc' kind') (h : cc.Holds kind loc fly)
    {V : Place → Prop} (hV : ¬ V .home)
    (hbefore : ∀ d a x, s ∈ cc.spans d → cc.pageCache.heap s = some a →
      x ∈ blocksOf a (Size.indexToSize d) → loc x = .home)
    (hafter : ∀ d a x, s ∈ cc'.spans d → cc'.pageCache.heap s = some a →
      x ∈ blocksOf a (Size.indexToSize d) → loc' x = .home)
    (hloc : ∀ d t a x, t ≠ s → t ∈ cc.spans d → cc.pageCache.heap t = some a →
      x ∈ blocksOf a (Size.indexToSize d) → loc' x = loc x) :
    Spares cc loc fly cc' loc' (some s) V where
  flying := by
    intro t a hts ht ha
    exact (hoff.heap_busy (h.flying ht) fun e => hts (congrArg some e.symm)).mpr ha
  listed := by
    intro c t a x ht ha hx haway
    have hts : t ≠ s := by
      rintro rfl
      rw [hbefore c a x ht ha hx] at haway
      exact hV haway
    exact ⟨(hoff.mem c t hts).mpr ht, a, (hoff.heap_busy (h.listed ht) hts).mpr ha, rfl⟩
  same := by
    intro v hv c x
    apply h.at_off hoff _ _ hloc
    · rintro d a y hs ha hy rfl
      rw [hbefore d a y hs ha hy] at hv
      exact hV hv
    · rintro d a y hs ha hy rfl
      rw [hafter d a y hs ha hy] at hv
      exact hV hv

theorem InUseBut.but (h : cc.InUseBut none) (s : SpanId) : cc.InUseBut (some s) :=
  fun c t a ht ha _ => h c t a ht ha fun e => nomatch e

/-- Every span of a list has a block that is away, if the changed one has. -/
theorem Holds.inUse_off (hoff : AgreeOff s cc kind cc' kind') (h : cc.Holds kind loc fly)
    (huse : cc.InUseBut (some s))
    (hs : ∀ c a, s ∈ cc'.spans c → cc'.pageCache.heap s = some a → o ≠ some s → 0 < a.used) :
    cc'.InUseBut o := by
  intro c t a ht ha hto
  by_cases hts : t = s
  · subst hts
    exact hs c a ht ha hto
  · have ht' := (hoff.mem c t hts).mp ht
    exact huse c t a ht' ((hoff.heap_busy (h.listed ht') hts).mp ha)
      fun e => hts (Option.some.inj e).symm

/-! ### Blocks that move -/

/-- Blocks change their places, and none of them leaves home or comes home. -/
theorem Holds.relocate (h : cc.Holds kind loc fly) (hloc : ∀ x, loc' x = .home ↔ loc x = .home) :
    cc.Holds kind loc' fly := by
  refine ⟨h.pages, h.settled, h.clean, h.nodup, fun s => ?_⟩
  have hs := h.spans s
  exact
    { range := hs.range
      oneClass := hs.oneClass
      busy := hs.busy
      apart := hs.apart
      chain := fun c a hc ha => (hs.chain c a hc ha).congr fun x => and_congr_right fun _ => hloc x
      used := hs.used }

section Move

variable {l : List Addr} {u v : Place}

theorem Holds.move (h : cc.Holds kind loc fly) (hmem : ∀ x ∈ l, cc.At loc c u x)
    (hu : u ≠ .home) (hv : v ≠ .home) : cc.Holds kind (Pool.relocate loc l v) fly := by
  apply h.relocate
  intro x
  unfold Pool.relocate
  split
  next hx =>
    rw [(hmem x hx).2]
    exact ⟨fun e => absurd e hv, fun e => absurd e hu⟩
  next => exact Iff.rfl

/-- The place that the blocks come to. -/
theorem Holds.at_target (h : cc.Holds kind loc fly) (hmem : ∀ x ∈ l, cc.At loc c u x) :
    cc.At (Pool.relocate loc l v) d v x ↔ cc.At loc d v x ∨ (d = c ∧ x ∈ l) := by
  unfold At Pool.relocate
  constructor
  · rintro ⟨hd, hl⟩
    split at hl
    next hx => exact .inr ⟨h.class_unique hd (hmem x hx).1, hx⟩
    next => exact .inl ⟨hd, hl⟩
  · rintro (⟨hd, hl⟩ | ⟨rfl, hx⟩)
    · refine ⟨hd, ?_⟩
      split
      next => rfl
      next => exact hl
    · exact ⟨(hmem x hx).1, if_pos hx⟩

end Move

/-! ### A span is written -/

/-- The central cache before and after a span object is written. -/
theorem agree_setSpan (cc : CentralCache) (kind : SpanId → Kind) (s : SpanId) (b : Span) :
    AgreeOff s cc kind (cc.setSpan s b) kind where
  mem := fun _ _ _ => Iff.rfl
  others := by
    intro t e hts
    show kind t = .busy ∧ Function.update cc.pageCache.heap s (some b) t = some e ↔ _
    rw [Function.update_of_ne hts]

/-- A span gets another free list, in step with the places of its blocks. -/
theorem Holds.setSpan (h : cc.Holds kind loc fly) (hs : s ∈ cc.spans c)
    (ha : cc.pageCache.heap s = some a) (hext : b.extent = a.extent)
    (hchain : Lists b.freeList.chain fun x =>
      x ∈ blocksOf a (Size.indexToSize c) ∧ loc' x = .home)
    (hused : b.used + b.freeList.chain.length = (blocksOf a (Size.indexToSize c)).length)
    (hloc : ∀ x, x ∉ blocksOf a (Size.indexToSize c) → (loc' x = .home ↔ loc x = .home)) :
    (cc.setSpan s b).Holds kind loc' fly := by
  have hbusy := (h.listed hs).1
  have hheap : (cc.setSpan s b).pageCache.heap s = some b := Function.update_self ..
  apply h.of_agree (agree_setSpan cc kind s b) (h.pages.touch ha hext) _
    (clean_setSpan h.clean hbusy) h.nodup _ (fun _ _ => Iff.rfl)
  · intro t d e x hts ht he hx
    exact hloc x fun hm => hts (h.block_unique ht hs he ha hx hm)
  · apply settled_setSpan h.settled
    rw [hbusy]
    decide
  · have hold := h.spans s
    constructor
    case range => exact hold.range
    case oneClass => exact hold.oneClass
    case busy => exact ⟨fun _ => .inl ⟨c, hs⟩, fun _ => ⟨hbusy, b, hheap⟩⟩
    case apart => exact hold.apart
    case chain =>
      intro d e ht he
      obtain rfl := hold.oneClass c d hs ht
      obtain rfl := Option.some.inj (hheap.symm.trans he)
      rw [blocksOf_congr hext]
      exact hchain
    case used =>
      intro d e ht he
      obtain rfl := hold.oneClass c d hs ht
      obtain rfl := Option.some.inj (hheap.symm.trans he)
      rw [blocksOf_congr hext]
      exact hused

/-- A span in flight is written. -/
theorem Holds.setFlying (h : cc.Holds kind loc fly) (hs : fly s)
    (ha : cc.pageCache.heap s = some a) (hext : b.extent = a.extent) {V : Place → Prop}
    (hV : ¬ V .home) :
    (cc.setSpan s b).Holds kind loc fly ∧
      Spares cc loc fly (cc.setSpan s b) loc (some s) V ∧
      (cc.InUseBut none → (cc.setSpan s b).InUseBut none) := by
  have hbusy := (h.flying hs).1
  have hheap : (cc.setSpan s b).pageCache.heap s = some b := Function.update_self ..
  have hnone : ∀ c, s ∉ (cc.setSpan s b).spans c := h.unlisted hs
  refine ⟨?_, ?_, fun huse => h.inUse_off (agree_setSpan cc kind s b) (huse.but s)
    fun c _ hc => absurd hc (hnone c)⟩
  · apply h.of_agree (agree_setSpan cc kind s b) (h.pages.touch ha hext) _
      (clean_setSpan h.clean hbusy) h.nodup _ (fun _ _ => Iff.rfl) (fun _ _ _ _ _ _ _ _ => Iff.rfl)
    · apply settled_setSpan h.settled
      rw [hbusy]
      decide
    · exact
        { range := fun c hc => absurd hc (hnone c)
          oneClass := fun c d hc => absurd hc (hnone c)
          busy := ⟨fun _ => .inr hs, fun _ => ⟨hbusy, b, hheap⟩⟩
          apart := fun c hc => absurd hc (hnone c)
          chain := fun c _ hc => absurd hc (hnone c)
          used := fun c _ hc => absurd hc (hnone c) }
  · apply h.spares_off (agree_setSpan cc kind s b) hV
    · exact fun d _ _ hd => absurd hd (h.unlisted hs d)
    · exact fun d _ _ hd => absurd hd (hnone d)
    · exact fun _ _ _ _ _ _ _ _ => rfl

/-! ### Between the page cache and a thread -/

/-- The page cache hands a span out. -/
theorem Holds.fetched (h : cc.Holds kind loc fly) {pages : Nat} {pc' : PageCache}
    (hf : PageCache.Fetched cc.pageCache kind pages pc' kind' s) {V : Place → Prop}
    (hV : ¬ V .home) :
    Holds { cc with pageCache := pc' } kind' loc (fun t => fly t ∨ t = s) ∧ ¬ fly s ∧
      Spares cc loc fly { cc with pageCache := pc' } loc (some s) V ∧
      (cc.InUseBut none → InUseBut { cc with pageCache := pc' } none) := by
  have hoff : AgreeOff s cc kind { cc with pageCache := pc' } kind' :=
    ⟨fun _ _ _ => Iff.rfl, hf.others⟩
  have hidle : ¬ (kind s = .busy ∧ ∃ a, cc.pageCache.heap s = some a) := by
    rintro ⟨hk, a, ha⟩
    exact nomatch (hf.notBusy hk).symm.trans ha
  have hnone : ∀ c, s ∉ cc.spans c := fun c hc => hidle (h.listed hc)
  obtain ⟨a, ha, _⟩ := hf.span
  refine ⟨?_, fun hs => hidle (h.flying hs), ?_, fun huse => h.inUse_off hoff (huse.but s)
    fun c _ hc => absurd hc (hnone c)⟩
  · apply h.of_agree hoff hf.inv (hf.settled h.settled) (hf.clean h.clean) h.nodup _ _
      (fun _ _ _ _ _ _ _ _ => Iff.rfl)
    · exact
        { range := fun c hc => absurd hc (hnone c)
          oneClass := fun c d hc => absurd hc (hnone c)
          busy := ⟨fun _ => .inr (.inr rfl), fun _ => ⟨hf.busy, a, ha⟩⟩
          apart := fun c hc => absurd hc (hnone c)
          chain := fun c _ hc => absurd hc (hnone c)
          used := fun c _ hc => absurd hc (hnone c) }
    · exact fun t hts => or_iff_left hts
  · apply h.spares_off hoff hV
    · exact fun d _ _ hd => absurd hd (hnone d)
    · exact fun d _ _ hd => absurd hd (hnone d)
    · exact fun _ _ _ _ _ _ _ _ => rfl

/-- The page cache takes a span back. -/
theorem Holds.returned (h : cc.Holds kind loc fly) (hs : fly s) {pc' : PageCache}
    (hr : PageCache.Returned cc.pageCache kind pc' kind' s a)
    (hclean : a.used = 0 ∧ a.freeList = FreeList.new) {V : Place → Prop} (hV : ¬ V .home) :
    Holds { cc with pageCache := pc' } kind' loc (fun t => fly t ∧ t ≠ s) ∧
      Spares cc loc fly { cc with pageCache := pc' } loc (some s) V ∧
      (cc.InUseBut none → InUseBut { cc with pageCache := pc' } none) := by
  have hoff : AgreeOff s cc kind { cc with pageCache := pc' } kind' :=
    ⟨fun _ _ _ => Iff.rfl, hr.others⟩
  have hnone := h.unlisted hs
  refine ⟨?_, ?_, fun huse => h.inUse_off hoff (huse.but s) fun c _ hc => absurd hc (hnone c)⟩
  · apply h.of_agree hoff hr.inv (hr.settled h.settled) (hr.clean h.clean hclean.1 hclean.2) h.nodup
      _ _ (fun _ _ _ _ _ _ _ _ => Iff.rfl)
    · exact
        { range := fun c hc => absurd hc (hnone c)
          oneClass := fun c d hc => absurd hc (hnone c)
          busy := by
            constructor
            · rintro ⟨hk, _⟩
              rw [hr.free] at hk
              cases hk
            · rintro (⟨c, hc⟩ | ⟨_, hne⟩)
              · exact absurd hc (hnone c)
              · exact absurd rfl hne
          apart := fun c hc => absurd hc (hnone c)
          chain := fun c _ hc => absurd hc (hnone c)
          used := fun c _ hc => absurd hc (hnone c) }
    · exact fun t hts => and_iff_left hts
  · apply h.spares_off hoff hV
    · exact fun d _ _ hd => absurd hd (hnone d)
    · exact fun d _ _ hd => absurd hd (hnone d)
    · exact fun _ _ _ _ _ _ _ _ => rfl

/-! ### Between a thread and a list -/

/-- A span in flight enters the list of its class, in blocks that are all at home. -/
def enter (cc : CentralCache) (c : Nat) (s : SpanId) : CentralCache :=
  { cc with spans := Function.update cc.spans c (s :: cc.spans c) }

theorem Holds.mem_enter (h : cc.Holds kind loc fly) (hs : fly s) :
    s ∈ (cc.enter c s).spans d ↔ d = c := by
  show s ∈ Function.update cc.spans c (s :: cc.spans c) d ↔ _
  by_cases hd : d = c
  · rw [hd, Function.update_self]
    simp
  · rw [Function.update_of_ne hd]
    simp [hd, h.unlisted hs d]

theorem agree_enter (cc : CentralCache) (kind : SpanId → Kind) (c : Nat) (s : SpanId) :
    AgreeOff s cc kind (cc.enter c s) kind where
  mem := by
    intro d t hts
    show t ∈ Function.update cc.spans c (s :: cc.spans c) d ↔ _
    by_cases hd : d = c
    · rw [hd, Function.update_self, List.mem_cons]
      exact or_iff_right hts
    · rw [Function.update_of_ne hd]
  others := fun _ _ _ => Iff.rfl

theorem Holds.enter (h : cc.Holds kind loc fly) (hs : fly s) (hc : c < maxArraySize)
    (ha : cc.pageCache.heap s = some a)
    (hchain : Lists a.freeList.chain (· ∈ blocksOf a (Size.indexToSize c)))
    (hused : a.used = 0) {V : Place → Prop} (hV : ¬ V .home) :
    (cc.enter c s).Holds kind (Pool.relocate loc (blocksOf a (Size.indexToSize c)) .home)
        (fun t => fly t ∧ t ≠ s) ∧
      Spares cc loc fly (cc.enter c s)
        (Pool.relocate loc (blocksOf a (Size.indexToSize c)) .home) (some s) V ∧
      (cc.InUseBut none → (cc.enter c s).InUseBut (some s)) := by
  have hsize := (Size.indexToSize_bounds hc).1
  have hoff := agree_enter cc kind c s
  have hmem : ∀ {d}, s ∈ (cc.enter c s).spans d ↔ d = c := h.mem_enter hs
  have hhome : ∀ x ∈ blocksOf a (Size.indexToSize c),
      Pool.relocate loc (blocksOf a (Size.indexToSize c)) .home x = .home := fun x hx => if_pos hx
  -- the blocks of the other spans are not blocks of this one
  have hloc : ∀ d t b x, t ≠ s → t ∈ cc.spans d → cc.pageCache.heap t = some b →
      x ∈ blocksOf b (Size.indexToSize d) →
      Pool.relocate loc (blocksOf a (Size.indexToSize c)) .home x = loc x := by
    intro d t b x hts ht hb hx
    apply if_neg
    intro hxa
    exact hts (h.page_unique hb ha (block_covers (h.size_pos ht) hx)
      (block_covers (by omega) hxa))
  refine ⟨?_, ?_, fun huse => h.inUse_off hoff (huse.but s) fun _ _ _ _ hne => absurd rfl hne⟩
  · apply h.of_agree hoff h.pages h.settled h.clean _ _ (fun t hts => and_iff_left hts)
    · intro t d b x hts ht hb hx
      rw [hloc d t b x hts ht hb hx]
    · intro d
      show (Function.update cc.spans c (s :: cc.spans c) d).Nodup
      by_cases hd : d = c
      · rw [hd, Function.update_self]
        exact List.nodup_cons.mpr ⟨h.unlisted hs c, h.nodup c⟩
      · rw [Function.update_of_ne hd]
        exact h.nodup d
    · constructor
      case range => exact fun d hd => hmem.mp hd ▸ hc
      case oneClass => exact fun d e hd he => (hmem.mp hd).trans (hmem.mp he).symm
      case busy => exact ⟨fun _ => .inl ⟨c, hmem.mpr rfl⟩, fun _ => h.flying hs⟩
      case apart => exact fun _ _ hfly => hfly.2 rfl
      case chain =>
        intro d b hd hb
        obtain rfl := hmem.mp hd
        obtain rfl := Option.some.inj (ha.symm.trans hb)
        exact hchain.congr fun x => and_iff_left_of_imp (hhome x)
      case used =>
        intro d b hd hb
        obtain rfl := hmem.mp hd
        obtain rfl := Option.some.inj (ha.symm.trans hb)
        have hblocks : (blocksOf a (Size.indexToSize d)).Nodup := blocksOf_nodup (by omega)
        have hperm : a.freeList.chain.Perm (blocksOf a (Size.indexToSize d)) :=
          (List.perm_ext_iff_of_nodup hchain.nodup hblocks).mpr hchain.mem
        rw [hused, Nat.zero_add, hperm.length_eq]
  · apply h.spares_off hoff hV _ _ hloc
    · exact fun d _ _ hd => absurd hd (h.unlisted hs d)
    · intro d b x hd hb hx
      obtain rfl := hmem.mp hd
      obtain rfl := Option.some.inj (ha.symm.trans hb)
      exact hhome x hx

/-- A span all of whose blocks are at home leaves the list of its class. -/
def leave (cc : CentralCache) (c : Nat) (s : SpanId) (b : Span) : CentralCache :=
  { cc with spans := Function.update cc.spans c ((cc.spans c).erase s) }.setSpan s b

theorem Holds.mem_leave (h : cc.Holds kind loc fly) (hs : s ∈ cc.spans c) :
    t ∈ (cc.leave c s b).spans d ↔ t ∈ cc.spans d ∧ t ≠ s := by
  show t ∈ Function.update cc.spans c ((cc.spans c).erase s) d ↔ _
  by_cases hd : d = c
  · rw [hd, Function.update_self, (h.nodup c).mem_erase_iff, and_comm]
  · rw [Function.update_of_ne hd]
    constructor
    · exact fun ht => ⟨ht, fun e => hd ((h.spans s).oneClass d c (e ▸ ht) hs)⟩
    · exact And.left

theorem Holds.leave (h : cc.Holds kind loc fly) (hs : s ∈ cc.spans c)
    (ha : cc.pageCache.heap s = some a)
    (hhome : ∀ x ∈ blocksOf a (Size.indexToSize c), loc x = .home) (hext : b.extent = a.extent)
    {V : Place → Prop} (hV : ¬ V .home) :
    (cc.leave c s b).Holds kind loc (fun t => fly t ∨ t = s) ∧
      Spares cc loc fly (cc.leave c s b) loc (some s) V ∧
      (cc.InUseBut (some s) → (cc.leave c s b).InUseBut none) := by
  have hbusy := (h.listed hs).1
  have hheap : (cc.leave c s b).pageCache.heap s = some b := Function.update_self ..
  have hmem : ∀ {d t}, t ∈ (cc.leave c s b).spans d ↔ t ∈ cc.spans d ∧ t ≠ s := h.mem_leave hs
  have hnone : ∀ d, s ∉ (cc.leave c s b).spans d := fun d hd => (hmem.mp hd).2 rfl
  have hoff : AgreeOff s cc kind (cc.leave c s b) kind :=
    ⟨fun d t hts => hmem.trans (and_iff_left hts), (agree_setSpan cc kind s b).others⟩
  refine ⟨?_, ?_, fun huse => h.inUse_off hoff huse fun d _ hd => absurd hd (hnone d)⟩
  · apply h.of_agree hoff (h.pages.touch ha hext) _ (clean_setSpan h.clean hbusy) _ _
      (fun t hts => or_iff_left hts) (fun _ _ _ _ _ _ _ _ => Iff.rfl)
    · apply settled_setSpan h.settled
      rw [hbusy]
      decide
    · intro d
      show (Function.update cc.spans c ((cc.spans c).erase s) d).Nodup
      by_cases hd : d = c
      · rw [hd, Function.update_self]
        exact (h.nodup c).erase s
      · rw [Function.update_of_ne hd]
        exact h.nodup d
    · exact
        { range := fun d hd => absurd hd (hnone d)
          oneClass := fun d _ hd => absurd hd (hnone d)
          busy := ⟨fun _ => .inr (.inr rfl), fun _ => ⟨hbusy, b, hheap⟩⟩
          apart := fun d hd => absurd hd (hnone d)
          chain := fun d _ hd => absurd hd (hnone d)
          used := fun d _ hd => absurd hd (hnone d) }
  · apply h.spares_off hoff hV
    · intro d e x hd he hx
      obtain rfl := (h.spans s).oneClass d c hd hs
      obtain rfl := Option.some.inj (ha.symm.trans he)
      exact hhome x hx
    · exact fun d _ _ hd => absurd hd (hnone d)
    · exact fun _ _ _ _ _ _ _ _ => rfl

/-! ### Between a span and a thread -/

/-- A span of a list is written, and its blocks at the places `V` stay there. -/
theorem spares_setSpan (ha : cc.pageCache.heap s = some a) (hext : b.extent = a.extent)
    {V : Place → Prop} (hsame : ∀ v, V v → ∀ c x, cc.At loc' c v x ↔ cc.At loc c v x) :
    Spares cc loc fly (cc.setSpan s b) loc' (some s) V where
  flying := by
    intro t e hts _ he
    show Function.update cc.pageCache.heap s (some b) t = some e
    rw [Function.update_of_ne fun heq => hts (congrArg some heq.symm), he]
  listed := by
    intro d t e x ht he _ _
    refine ⟨ht, ?_⟩
    by_cases hts : t = s
    · subst hts
      obtain rfl := Option.some.inj (ha.symm.trans he)
      exact ⟨b, Function.update_self .., hext⟩
    · exact ⟨e, (Function.update_of_ne hts ..).trans he, rfl⟩
  same := by
    intro v hv d x
    rw [at_setSpan ha hext, hsame v hv]

/-- Blocks leave the free list of a span, for a place away from home. -/
theorem Holds.fetchLoop (h : cc.Holds kind loc fly) (hs : s ∈ cc.spans c)
    (ha : cc.pageCache.heap s = some a) (hne : a.freeList.chain ≠ []) {count : Nat}
    (hcount : 1 ≤ count) {v : Place} (hv : v ≠ .home) :
    ∃ b taken, CentralCache.fetchLoop count a [] = some (b, taken.reverse) ∧
      b.extent = a.extent ∧ 0 < b.used ∧ taken ≠ [] ∧ taken.Nodup ∧
      (∀ x ∈ taken, cc.At loc c .home x) ∧
      (cc.setSpan s b).Holds kind (Pool.relocate loc taken v) fly := by
  obtain ⟨n, hn, hle, hloop⟩ := fetchLoop_eq [] hne hcount
  obtain ⟨b, hb⟩ : ∃ b : Span, b = { a with
      freeList := { a.freeList with chain := a.freeList.chain.drop n }
      used := a.used + n } := ⟨_, rfl⟩
  rw [List.append_nil, ← hb] at hloop
  have hext : b.extent = a.extent := by
    rw [hb]
    rfl
  have hchain := (h.spans s).chain c a hs ha
  have hfrom : ∀ x ∈ a.freeList.chain.take n,
      x ∈ blocksOf a (Size.indexToSize c) ∧ loc x = .home :=
    fun x hx => (hchain.mem x).mp (List.mem_of_mem_take hx)
  have hhome : ∀ x, Pool.relocate loc (a.freeList.chain.take n) v x = .home ↔
      loc x = .home ∧ x ∉ a.freeList.chain.take n := by
    intro x
    unfold Pool.relocate
    split
    · next hx => simp [hx, hv]
    · next hx => simp [hx]
  refine ⟨b, _, hloop, hext, ?_, ?_, hchain.nodup.sublist (List.take_sublist n _), ?_, ?_⟩
  · rw [hb]
    show 0 < a.used + n
    omega
  · intro hnil
    have hlen := congrArg List.length hnil
    rw [List.length_take, List.length_nil] at hlen
    omega
  · exact fun x hx => ⟨⟨s, a, hs, ha, (hfrom x hx).1⟩, (hfrom x hx).2⟩
  · apply h.setSpan hs ha hext
    · rw [hb]
      apply hchain.drop n
      intro x
      rw [hhome, and_assoc]
    · have hused := (h.spans s).used c a hs ha
      rw [hb]
      dsimp only
      rw [List.length_drop]
      omega
    · intro x hx
      rw [hhome]
      exact and_iff_left fun hm => hx (hfrom x hm).1

/-- One block comes back to its span. -/
theorem Holds.comeHome (h : cc.Holds kind loc fly) (hs : s ∈ cc.spans c)
    (ha : cc.pageCache.heap s = some a) (hx : x ∈ blocksOf a (Size.indexToSize c))
    (haway : loc x ≠ .home) (hext : b.extent = a.extent)
    (hlist : b.freeList = a.freeList.pushFront x) (hused : b.used = a.used - 1) :
    (cc.setSpan s b).Holds kind (Pool.relocate loc [x] .home) fly := by
  have hchain := (h.spans s).chain c a hs ha
  have hcount := (h.spans s).used c a hs ha
  have hpos := h.used_pos hs ha hx haway
  apply h.setSpan hs ha hext
  · rw [hlist]
    apply hchain.cons
    · exact fun hhome => haway hhome.2
    · intro y
      rw [relocate_home]
      constructor
      · rintro ⟨hy, rfl | hh⟩
        · exact .inl rfl
        · exact .inr ⟨hy, hh⟩
      · rintro (rfl | ⟨hy, hh⟩)
        · exact ⟨hx, .inl rfl⟩
        · exact ⟨hy, .inr hh⟩
  · have hlen : b.freeList.chain.length = a.freeList.chain.length + 1 := by
      rw [hlist]
      rfl
    omega
  · intro y hy
    rw [relocate_home]
    constructor
    · rintro (rfl | hh)
      · exact absurd hx hy
      · exact hh
    · exact .inr

end CentralCache

end Pool

end WWRaftKV
