/-
The blocks of the pool: where they lie, and who has them.

Every block of a span of the central cache has one place.  It is at home in the free list
of its span, in a thread cache, on the way between the two, or out with a caller.  The
invariant says that the lists hold exactly the blocks with their place, and that the
`used` count of a span is the number of its blocks that are not at home.
-/
import WWRaftKV.General.Listing
import WWRaftKV.Pool.Caches
import WWRaftKV.Pool.Pages

namespace WWRaftKV

namespace Pool

/-! ## The blocks of a span -/

section Blocks

variable {a b : Span} {size x y : Nat}

theorem ptrToId_eq (p : Nat) : Span.ptrToId p = p / 4096 := Nat.shiftRight_eq_div_pow p 12

theorem idToPtr_eq (id : Nat) : Span.idToPtr id = id * 4096 := Nat.shiftLeft_eq id 12

theorem mem_blocksOf :
    x ∈ CentralCache.blocksOf a size ↔
      ∃ i, i < a.pageCount * 4096 / size ∧ x = a.pageId * 4096 + i * size := by
  unfold CentralCache.blocksOf
  simp only [List.mem_map, List.mem_range, idToPtr_eq]
  show (∃ i, i < a.pageCount * 4096 / size ∧ _) ↔ _
  simp only [eq_comm]

theorem blocksOf_congr (h : b.extent = a.extent) :
    CentralCache.blocksOf b size = CentralCache.blocksOf a size := by
  have hid : b.pageId = a.pageId := congrArg Extent.start h
  have hcount : b.pageCount = a.pageCount := congrArg Extent.len h
  unfold CentralCache.blocksOf
  rw [hid, hcount]

theorem blocksOf_length : (CentralCache.blocksOf a size).length = a.pageCount * 4096 / size := by
  unfold CentralCache.blocksOf
  rw [List.length_map, List.length_range]
  rfl

theorem blocksOf_nodup (hsize : 0 < size) : (CentralCache.blocksOf a size).Nodup := by
  unfold CentralCache.blocksOf
  apply List.Nodup.map _ List.nodup_range
  intro i j hij
  have hmul : i * size = j * size := Nat.add_left_cancel hij
  exact Nat.eq_of_mul_eq_mul_right hsize hmul

/-- A block lies within the pages of its span. -/
theorem block_inside (hx : x ∈ CentralCache.blocksOf a size) :
    a.pageId * 4096 ≤ x ∧ x + size ≤ (a.pageId + a.pageCount) * 4096 := by
  obtain ⟨i, hi, rfl⟩ := mem_blocksOf.mp hx
  have hle : (i + 1) * size ≤ a.pageCount * 4096 :=
    Nat.le_trans (Nat.mul_le_mul_right size hi) (Nat.div_mul_le_self _ _)
  rw [Nat.add_mul, Nat.one_mul] at hle
  rw [Nat.add_mul]
  omega

theorem block_covers (hsize : 0 < size) (hx : x ∈ CentralCache.blocksOf a size) :
    a.extent.Covers (Span.ptrToId x) := by
  have hin := block_inside hx
  rw [ptrToId_eq]
  show a.pageId ≤ x / 4096 ∧ x / 4096 < a.pageId + a.pageCount
  omega

/-- Two blocks of a span do not overlap. -/
theorem block_apart (hx : x ∈ CentralCache.blocksOf a size)
    (hy : y ∈ CentralCache.blocksOf a size) (hne : x ≠ y) : x + size ≤ y ∨ y + size ≤ x := by
  obtain ⟨i, _, rfl⟩ := mem_blocksOf.mp hx
  obtain ⟨j, _, rfl⟩ := mem_blocksOf.mp hy
  rcases Nat.lt_trichotomy i j with hij | rfl | hji
  · left
    have := Nat.mul_le_mul_right size hij
    rw [Nat.succ_mul] at this
    omega
  · exact absurd rfl hne
  · right
    have := Nat.mul_le_mul_right size hji
    rw [Nat.succ_mul] at this
    omega

/-- The span that is fetched for a size has room for a block. -/
theorem pageCountFor_bounds (hpos : 8 ≤ size) (hmax : size ≤ maxMemorySize) :
    1 ≤ CentralCache.pageCountFor size ∧ CentralCache.pageCountFor size ≤ maxPageNum ∧
      size ≤ CentralCache.pageCountFor size * 4096 := by
  have hmax : size ≤ 262144 := hmax
  unfold CentralCache.pageCountFor maxBlockNum pageSize maxPageNum
  dsimp only
  split_ifs <;> omega

theorem foldl_pushFront (xs : List Addr) (l : FreeList) :
    xs.foldl FreeList.pushFront l = { l with chain := xs.reverse ++ l.chain } := by
  induction xs generalizing l with
  | nil => rfl
  | cons x xs ih =>
    rw [List.foldl_cons, ih]
    simp [FreeList.pushFront]

theorem carve_freeList (hclean : a.freeList = FreeList.new) :
    (CentralCache.carve a size).freeList =
      { FreeList.new with chain := (CentralCache.blocksOf a size).reverse } := by
  unfold CentralCache.carve
  dsimp only
  rw [foldl_pushFront, hclean]
  simp [FreeList.new]

end Blocks

/-! ## Places -/

/-- Where a block is. -/
inductive Place
  | home
  | cache (thread : Nat)
  | moving
  | out
deriving DecidableEq, Repr

/-- The blocks on the list get a new place. -/
def relocate (loc : Addr → Place) (l : List Addr) (v : Place) (x : Addr) : Place :=
  if x ∈ l then v else loc x

namespace CentralCache

/-- `x` is a block of the size class `c`. -/
def IsBlock (cc : CentralCache) (c : Nat) (x : Addr) : Prop :=
  ∃ s a, s ∈ cc.spans c ∧ cc.pageCache.heap s = some a ∧ x ∈ blocksOf a (Size.indexToSize c)

/-- A block of the class `c` that is at the place `v`. -/
def At (cc : CentralCache) (loc : Addr → Place) (c : Nat) (v : Place) (x : Addr) : Prop :=
  cc.IsBlock c x ∧ loc x = v

structure Inv (cc : CentralCache) (kind : SpanId → Kind) (loc : Addr → Place) : Prop where
  pages : cc.pageCache.Inv kind
  settled : cc.pageCache.Settled kind
  clean : cc.pageCache.Clean kind
  nodup : ∀ c, (cc.spans c).Nodup
  range : ∀ c s, s ∈ cc.spans c → c < maxArraySize
  oneClass : ∀ c d s, s ∈ cc.spans c → s ∈ cc.spans d → c = d
  busy : ∀ s, (kind s = .busy ∧ ∃ a, cc.pageCache.heap s = some a) ↔ ∃ c, s ∈ cc.spans c
  chain : ∀ c s a, s ∈ cc.spans c → cc.pageCache.heap s = some a →
    Lists a.freeList.chain fun x => x ∈ blocksOf a (Size.indexToSize c) ∧ loc x = .home
  used : ∀ c s a, s ∈ cc.spans c → cc.pageCache.heap s = some a →
    a.used + a.freeList.chain.length = (blocksOf a (Size.indexToSize c)).length

/-- Every span of the central cache but `s` has a block that is not at home. -/
def InUseBut (cc : CentralCache) (s : Option SpanId) : Prop :=
  ∀ c t a, t ∈ cc.spans c → cc.pageCache.heap t = some a → s ≠ some t → 0 < a.used

/-- From one state to the other, the blocks at the places `V` are the same. -/
def SameAt (cc : CentralCache) (loc : Addr → Place) (cc' : CentralCache) (loc' : Addr → Place)
    (V : Place → Prop) : Prop :=
  ∀ v, V v → ∀ c x, cc'.At loc' c v x ↔ cc.At loc c v x

/-- The spans of `cc` are spans of `cc'`, of the same class and with the same pages. -/
def Within (cc cc' : CentralCache) : Prop :=
  ∀ c s a, s ∈ cc.spans c → cc.pageCache.heap s = some a →
    s ∈ cc'.spans c ∧ ∃ a', cc'.pageCache.heap s = some a' ∧ a'.extent = a.extent

section Inv

variable {cc : CentralCache} {kind : SpanId → Kind} {loc loc' : Addr → Place} {c d : Nat}
  {s t : SpanId} {a b : Span} {x : Addr}

theorem Inv.span (h : cc.Inv kind loc) (hs : s ∈ cc.spans c) :
    kind s = .busy ∧ ∃ a, cc.pageCache.heap s = some a := (h.busy s).mpr ⟨c, hs⟩

theorem Inv.size_pos (h : cc.Inv kind loc) (hs : s ∈ cc.spans c) :
    0 < Size.indexToSize c := by
  have := (Size.indexToSize_bounds (h.range c s hs)).1
  omega

/-- A block lies in one span only. -/
theorem Inv.block_unique (h : cc.Inv kind loc) (hs : s ∈ cc.spans c) (ht : t ∈ cc.spans d)
    (ha : cc.pageCache.heap s = some a) (hb : cc.pageCache.heap t = some b)
    (hx : x ∈ blocksOf a (Size.indexToSize c)) (hy : x ∈ blocksOf b (Size.indexToSize d)) :
    s = t :=
  h.pages.tiles.apart s t _ _ _ (PageCache.extents_of_heap ha) (PageCache.extents_of_heap hb)
    (block_covers (h.size_pos hs) hx) (block_covers (h.size_pos ht) hy)

/-- A block is of one class only. -/
theorem Inv.class_unique (h : cc.Inv kind loc) (hc : cc.IsBlock c x) (hd : cc.IsBlock d x) :
    c = d := by
  obtain ⟨s, a, hs, ha, hx⟩ := hc
  obtain ⟨t, b, ht, hb, hy⟩ := hd
  obtain rfl := h.block_unique hs ht ha hb hx hy
  exact h.oneClass c d s hs ht

/-- The page cache finds the span of a block. -/
theorem Inv.objectToSpan (h : cc.Inv kind loc) (hs : s ∈ cc.spans c)
    (ha : cc.pageCache.heap s = some a) (hx : x ∈ blocksOf a (Size.indexToSize c)) :
    cc.pageCache.objectToSpan x = some (some s) := by
  obtain ⟨r, hr, hspec⟩ := h.pages.objectToSpan x
  rw [hr, (hspec s).mpr ⟨(h.span hs).1, a, ha, block_covers (h.size_pos hs) hx⟩]

/-! ### Writing a span -/

theorem heap_setSpan {e : Span} : (cc.setSpan s b).pageCache.heap t = some e ↔
    (t = s ∧ e = b) ∨ (t ≠ s ∧ cc.pageCache.heap t = some e) := update_eq_some

theorem settled_setSpan (h : cc.pageCache.Settled kind) (hs : kind s ≠ .hand) :
    (cc.setSpan s b).pageCache.Settled kind := by
  intro t e he
  rcases heap_setSpan.mp he with ⟨rfl, _⟩ | ⟨_, he⟩
  · exact hs
  · exact h t e he

theorem clean_setSpan (h : cc.pageCache.Clean kind) (hs : kind s = .busy) :
    (cc.setSpan s b).pageCache.Clean kind := by
  intro t e hk he
  rcases heap_setSpan.mp he with ⟨rfl, _⟩ | ⟨_, he⟩
  · exact absurd hs hk
  · exact h t e hk he

/-- A span is written with the same extent: its blocks stay the same. -/
theorem isBlock_setSpan (ha : cc.pageCache.heap s = some a) (hext : b.extent = a.extent) :
    (cc.setSpan s b).IsBlock c x ↔ cc.IsBlock c x := by
  constructor
  · rintro ⟨t, e, ht, he, hx⟩
    rcases heap_setSpan.mp he with ⟨rfl, rfl⟩ | ⟨_, he⟩
    · exact ⟨t, a, ht, ha, blocksOf_congr hext ▸ hx⟩
    · exact ⟨t, e, ht, he, hx⟩
  · rintro ⟨t, e, ht, he, hx⟩
    by_cases hts : t = s
    · subst hts
      obtain rfl := Option.some.inj (ha.symm.trans he)
      exact ⟨t, b, ht, Function.update_self .., (blocksOf_congr hext).symm ▸ hx⟩
    · exact ⟨t, e, ht, heap_setSpan.mpr (.inr ⟨hts, he⟩), hx⟩

theorem at_setSpan (ha : cc.pageCache.heap s = some a) (hext : b.extent = a.extent) {v : Place} :
    (cc.setSpan s b).At loc c v x ↔ cc.At loc c v x :=
  and_congr_left fun _ => isBlock_setSpan ha hext

theorem Within.refl (cc : CentralCache) : cc.Within cc := fun _ _ a hs ha => ⟨hs, a, ha, rfl⟩

theorem Within.trans {cc₁ cc₂ : CentralCache} (h₁ : cc.Within cc₁) (h₂ : cc₁.Within cc₂) :
    cc.Within cc₂ := by
  intro c s a hs ha
  obtain ⟨hs₁, a₁, ha₁, hext₁⟩ := h₁ c s a hs ha
  obtain ⟨hs₂, a₂, ha₂, hext₂⟩ := h₂ c s a₁ hs₁ ha₁
  exact ⟨hs₂, a₂, ha₂, hext₂.trans hext₁⟩

theorem within_setSpan (hext : ∀ a, cc.pageCache.heap s = some a → b.extent = a.extent) :
    cc.Within (cc.setSpan s b) := by
  intro c t e ht he
  refine ⟨ht, ?_⟩
  by_cases hts : t = s
  · subst hts
    exact ⟨b, Function.update_self .., hext e he⟩
  · exact ⟨e, (Function.update_of_ne hts ..).trans he, rfl⟩

theorem setSpan_within (ha : cc.pageCache.heap s = some a) (hext : b.extent = a.extent) :
    (cc.setSpan s b).Within cc := by
  intro c t e ht he
  refine ⟨ht, ?_⟩
  rcases heap_setSpan.mp he with ⟨rfl, rfl⟩ | ⟨_, he⟩
  · exact ⟨a, ha, hext.symm⟩
  · exact ⟨e, he, rfl⟩

/-- A span gets another free list, in step with the places of its blocks. -/
theorem Inv.setSpan (h : cc.Inv kind loc) (hs : s ∈ cc.spans c)
    (ha : cc.pageCache.heap s = some a) (hext : b.extent = a.extent)
    (hchain : Lists b.freeList.chain fun x =>
      x ∈ blocksOf a (Size.indexToSize c) ∧ loc' x = .home)
    (hused : b.used + b.freeList.chain.length = (blocksOf a (Size.indexToSize c)).length)
    (hloc : ∀ x, x ∉ blocksOf a (Size.indexToSize c) → (loc' x = .home ↔ loc x = .home)) :
    (cc.setSpan s b).Inv kind loc' := by
  have hbusy := (h.span hs).1
  constructor
  case pages => exact h.pages.touch ha hext
  case settled =>
    apply settled_setSpan h.settled
    rw [hbusy]
    decide
  case clean => exact clean_setSpan h.clean hbusy
  case nodup => exact h.nodup
  case range => exact h.range
  case oneClass => exact h.oneClass
  case busy =>
    intro t
    rw [show (cc.setSpan s b).spans = cc.spans from rfl, ← h.busy t]
    unfold CentralCache.setSpan
    dsimp only
    by_cases hts : t = s
    · rw [hts, Function.update_self, ha]
      simp
    · rw [Function.update_of_ne hts]
  case chain =>
    intro d t e ht he
    rcases heap_setSpan.mp he with ⟨rfl, rfl⟩ | ⟨hts, he⟩
    · obtain rfl := h.oneClass c d t hs ht
      rw [blocksOf_congr hext]
      exact hchain
    · apply (h.chain d t e ht he).congr
      intro y
      constructor
      · rintro ⟨hy, hl⟩
        exact ⟨hy, (hloc y fun hm => hts (h.block_unique ht hs he ha hy hm)).mp hl⟩
      · rintro ⟨hy, hl⟩
        exact ⟨hy, (hloc y fun hm => hts (h.block_unique ht hs he ha hy hm)).mpr hl⟩
  case used =>
    intro d t e ht he
    rcases heap_setSpan.mp he with ⟨rfl, rfl⟩ | ⟨_, he⟩
    · obtain rfl := h.oneClass c d t hs ht
      rw [blocksOf_congr hext]
      exact hused
    · exact h.used d t e ht he

theorem inUseBut_setSpan {o : Option SpanId} (h : cc.InUseBut o) (hb : 0 < b.used)
    (ho : ∀ t, o = some t → t = s) : (cc.setSpan s b).InUseBut none := by
  intro d t e ht he _
  rcases heap_setSpan.mp he with ⟨_, rfl⟩ | ⟨hts, he⟩
  · exact hb
  · exact h d t e ht he fun e => hts (ho t e)

/-! ### Changing places away from home -/

/-- Blocks change their places, and none of them leaves home or comes home. -/
theorem Inv.relocate (h : cc.Inv kind loc) (hloc : ∀ x, loc' x = .home ↔ loc x = .home) :
    cc.Inv kind loc' where
  pages := h.pages
  settled := h.settled
  clean := h.clean
  nodup := h.nodup
  range := h.range
  oneClass := h.oneClass
  busy := h.busy
  chain := fun c s a hs ha => (h.chain c s a hs ha).congr fun x => and_congr_right fun _ => hloc x
  used := h.used

/-! ### Blocks that move together -/

section Move

variable {l : List Addr} {u v w : Place}

/-- The places that the blocks do not leave or come to are as before. -/
theorem at_move_other (hmem : ∀ x ∈ l, cc.At loc c u x) (hu : w ≠ u) (hv : w ≠ v) :
    cc.At (Pool.relocate loc l v) d w x ↔ cc.At loc d w x := by
  apply and_congr_right
  intro _
  unfold Pool.relocate
  split
  next hx =>
    rw [(hmem x hx).2]
    exact ⟨fun e => absurd e.symm hv, fun e => absurd e.symm hu⟩
  next => exact Iff.rfl

/-- The place that they leave. -/
theorem at_move_source (huv : u ≠ v) :
    cc.At (Pool.relocate loc l v) d u x ↔ cc.At loc d u x ∧ x ∉ l := by
  unfold At Pool.relocate
  split
  next hx => simp [hx, huv.symm]
  next hx => simp [hx]

/-- The place that they come to. -/
theorem at_move_target (h : cc.Inv kind loc) (hmem : ∀ x ∈ l, cc.At loc c u x) :
    cc.At (Pool.relocate loc l v) d v x ↔ cc.At loc d v x ∨ (d = c ∧ x ∈ l) := by
  unfold At Pool.relocate
  constructor
  · rintro ⟨hd, hl⟩
    split at hl
    next hx => exact .inr ⟨h.class_unique hd (hmem x hx).1, hx⟩
    next => exact .inl ⟨hd, hl⟩
  · rintro (⟨hd, hl⟩ | ⟨rfl, hx⟩)
    · refine ⟨hd, ?_⟩
      split
      next => rfl
      next => exact hl
    · exact ⟨(hmem x hx).1, if_pos hx⟩

/-- A move between two places away from home leaves the spans as they are. -/
theorem inv_move (h : cc.Inv kind loc) (hmem : ∀ x ∈ l, cc.At loc c u x) (hu : u ≠ .home)
    (hv : v ≠ .home) : cc.Inv kind (Pool.relocate loc l v) := by
  apply h.relocate
  intro x
  unfold Pool.relocate
  split
  next hx =>
    rw [(hmem x hx).2]
    exact ⟨fun e => absurd e hv, fun e => absurd e hu⟩
  next => exact Iff.rfl

end Move

/-! ### All spans but one -/

/-- Two states of the central cache that agree on every span but `s`. -/
structure AgreeOff (s : SpanId) (cc : CentralCache) (kind : SpanId → Kind) (cc' : CentralCache)
    (kind' : SpanId → Kind) : Prop where
  mem : ∀ d t, t ≠ s → (t ∈ cc'.spans d ↔ t ∈ cc.spans d)
  others : cc.pageCache.SameBusy kind cc'.pageCache kind' s

namespace AgreeOff

variable {cc' : CentralCache} {kind' : SpanId → Kind} (hoff : AgreeOff s cc kind cc' kind')
  (h : cc.Inv kind loc)

include hoff h

theorem heap_iff (ht : t ∈ cc.spans d) (hts : t ≠ s) :
    cc'.pageCache.heap t = some b ↔ cc.pageCache.heap t = some b := by
  obtain ⟨hk, e, he⟩ := h.span ht
  constructor
  · intro hb
    have he' := ((hoff.others t e hts).mpr ⟨hk, he⟩).2
    rw [he, ← he', hb]
  · exact fun hb => ((hoff.others t b hts).mpr ⟨hk, hb⟩).2

theorem busy (hts : t ≠ s) :
    (kind' t = .busy ∧ ∃ b, cc'.pageCache.heap t = some b) ↔ ∃ d, t ∈ cc'.spans d := by
  have hlists : (∃ d, t ∈ cc'.spans d) ↔ ∃ d, t ∈ cc.spans d :=
    exists_congr fun d => hoff.mem d t hts
  rw [hlists, ← h.busy t, ← exists_and_left, ← exists_and_left]
  exact exists_congr fun e => hoff.others t e hts

/-- Blocks away from home are the same where those of `s` are at home. -/
theorem sameAt
    (hbefore : ∀ d a x, s ∈ cc.spans d → cc.pageCache.heap s = some a →
      x ∈ blocksOf a (Size.indexToSize d) → loc x = .home)
    (hafter : ∀ d a x, s ∈ cc'.spans d → cc'.pageCache.heap s = some a →
      x ∈ blocksOf a (Size.indexToSize d) → loc' x = .home)
    (hloc : ∀ d t a x, t ≠ s → t ∈ cc.spans d → cc.pageCache.heap t = some a →
      x ∈ blocksOf a (Size.indexToSize d) → loc' x = loc x) :
    SameAt cc loc cc' loc' (· ≠ .home) := by
  intro v hv d x
  constructor
  · rintro ⟨⟨t, b, ht, hb, hx⟩, hl⟩
    have hts : t ≠ s := by
      rintro rfl
      exact hv (hl.symm.trans (hafter d b x ht hb hx))
    have ht' := (hoff.mem d t hts).mp ht
    have hb' := (hoff.heap_iff h ht' hts).mp hb
    rw [hloc d t b x hts ht' hb' hx] at hl
    exact ⟨⟨t, b, ht', hb', hx⟩, hl⟩
  · rintro ⟨⟨t, b, ht, hb, hx⟩, hl⟩
    have hts : t ≠ s := by
      rintro rfl
      exact hv (hl.symm.trans (hbefore d b x ht hb hx))
    have ht' := (hoff.mem d t hts).mpr ht
    have hb' := (hoff.heap_iff h ht hts).mpr hb
    rw [← hloc d t b x hts ht hb hx] at hl
    exact ⟨⟨t, b, ht', hb', hx⟩, hl⟩

end AgreeOff

/-! ### A fresh span -/

theorem findFree_spec {heap : SpanId → Option Span} {l : List SpanId}
    (h : ∀ s ∈ l, ∃ a, heap s = some a) :
    findFree heap l = some none ∨ ∃ s a, s ∈ l ∧ heap s = some a ∧ a.freeList.chain ≠ [] ∧
      findFree heap l = some (some s) := by
  induction l with
  | nil => exact .inl rfl
  | cons s l ih =>
    obtain ⟨a, ha⟩ := h s List.mem_cons_self
    rw [findFree, ha]
    simp only [Option.bind_eq_bind, Option.bind_some]
    by_cases hempty : a.freeList.chain.isEmpty = true
    · rw [if_pos hempty]
      apply (ih fun t ht => h t (List.mem_cons_of_mem _ ht)).imp_right
      rintro ⟨t, b, ht, hb, hne, hrun⟩
      exact ⟨t, b, List.mem_cons_of_mem _ ht, hb, hne, hrun⟩
    · rw [if_neg hempty]
      refine .inr ⟨s, a, List.mem_cons_self, ha, ?_, rfl⟩
      rintro he
      rw [he] at hempty
      exact hempty rfl

/-- A span that the page cache has handed out is cut into blocks and enters the list of its
class. -/
def addSpan (cc : CentralCache) (pc' : PageCache) (c : Nat) (s : SpanId) (a : Span) :
    CentralCache where
  pageCache := { pc' with
    heap := Function.update pc'.heap s (some (carve a (Size.indexToSize c))) }
  spans := Function.update cc.spans c (s :: cc.spans c)

theorem heap_addSpan {pc' : PageCache} :
    (cc.addSpan pc' c s a).pageCache.heap s = some (carve a (Size.indexToSize c)) :=
  Function.update_self ..

theorem blocksOf_carve (a : Span) (size : Nat) :
    blocksOf (carve a size) size = blocksOf a size := blocksOf_congr rfl

/-- Only the new span is another. -/
theorem agree_addSpan {pages : Nat} {pc' : PageCache} {kind' : SpanId → Kind}
    (hf : PageCache.Fetched cc.pageCache kind pages pc' kind' s) :
    AgreeOff s cc kind (cc.addSpan pc' c s a) kind' where
  mem := by
    intro d t hts
    show t ∈ Function.update cc.spans c (s :: cc.spans c) d ↔ _
    by_cases hd : d = c
    · rw [hd, Function.update_self, List.mem_cons]
      simp [hts]
    · rw [Function.update_of_ne hd]
  others := by
    intro t e hts
    show kind' t = .busy ∧ Function.update pc'.heap s _ t = some e ↔ _
    rw [Function.update_of_ne hts]
    exact hf.others t e hts

section Fetched

variable {pages : Nat} {pc' : PageCache} {kind' : SpanId → Kind}
  (h : cc.Inv kind loc) (hf : PageCache.Fetched cc.pageCache kind pages pc' kind' s)

include h hf

/-- A span that the page cache hands out was in no list. -/
theorem Inv.fetched_new (d : Nat) : s ∉ cc.spans d := by
  intro hd
  obtain ⟨hk, b, hb⟩ := h.span hd
  exact nomatch (hf.notBusy hk).symm.trans hb

/-- The spans that were there are as they were. -/
theorem Inv.fetched_heap (ht : t ∈ cc.spans d) :
    pc'.heap t = some b ↔ cc.pageCache.heap t = some b := by
  have hts : t ≠ s := fun e => h.fetched_new hf d (e ▸ ht)
  have hoff : AgreeOff s cc kind { pageCache := pc', spans := cc.spans } kind' :=
    ⟨fun _ _ _ => Iff.rfl, hf.others⟩
  exact hoff.heap_iff h ht hts

/-- Their blocks lie apart from the pages of the new one. -/
theorem Inv.fetched_apart (hc : c < maxArraySize) (ha : pc'.heap s = some a)
    (ht : t ∈ cc.spans d) (hb : cc.pageCache.heap t = some b)
    (hx : x ∈ blocksOf b (Size.indexToSize d)) : x ∉ blocksOf a (Size.indexToSize c) := by
  intro hxa
  have hts : t ≠ s := fun e => h.fetched_new hf d (e ▸ ht)
  have hb' := (h.fetched_heap hf ht).mpr hb
  have hsize := (Size.indexToSize_bounds hc).1
  exact hts (hf.inv.tiles.apart t s _ _ _ (PageCache.extents_of_heap hb')
    (PageCache.extents_of_heap ha) (block_covers (h.size_pos ht) hx)
    (block_covers (by omega) hxa))

theorem Inv.mem_addSpan : s ∈ (cc.addSpan pc' c s a).spans d ↔ d = c := by
  show s ∈ Function.update cc.spans c (s :: cc.spans c) d ↔ _
  by_cases hd : d = c
  · rw [hd, Function.update_self]
    simp
  · rw [Function.update_of_ne hd]
    simp [hd, h.fetched_new hf d]

theorem Inv.nodup_addSpan (d : Nat) : ((cc.addSpan pc' c s a).spans d).Nodup := by
  show (Function.update cc.spans c (s :: cc.spans c) d).Nodup
  by_cases hd : d = c
  · rw [hd, Function.update_self]
    exact List.nodup_cons.mpr ⟨h.fetched_new hf c, h.nodup c⟩
  · rw [Function.update_of_ne hd]
    exact h.nodup d

end Fetched

/-- The blocks of the span that enters are at home, on its free list. -/
theorem Inv.addSpan (h : cc.Inv kind loc) (hc : c < maxArraySize) {pages : Nat}
    {pc' : PageCache} {kind' : SpanId → Kind}
    (hf : PageCache.Fetched cc.pageCache kind pages pc' kind' s) (ha : pc'.heap s = some a)
    (hempty : a.used = 0 ∧ a.freeList = FreeList.new) :
    (cc.addSpan pc' c s a).Inv kind'
      (Pool.relocate loc (blocksOf a (Size.indexToSize c)) .home) := by
  have hsize := (Size.indexToSize_bounds hc).1
  have hnew : ∀ d, s ∉ cc.spans d := h.fetched_new hf
  have hoff : AgreeOff s cc kind (cc.addSpan pc' c s a) kind' := agree_addSpan hf
  have hs : ∀ {d}, s ∈ (cc.addSpan pc' c s a).spans d ↔ d = c := h.mem_addSpan hf
  constructor
  case pages => exact hf.inv.touch ha rfl
  case settled =>
    intro t b hb
    rcases update_eq_some.mp hb with ⟨rfl, _⟩ | ⟨_, hb⟩
    · rw [hf.busy]
      decide
    · exact hf.settled h.settled t b hb
  case clean =>
    intro t b hk hb
    rcases update_eq_some.mp hb with ⟨rfl, _⟩ | ⟨_, hb⟩
    · exact absurd hf.busy hk
    · exact hf.clean h.clean t b hk hb
  case nodup => exact h.nodup_addSpan hf
  case range =>
    intro d t ht
    by_cases hts : t = s
    · subst hts
      rwa [hs.mp ht]
    · exact h.range d t ((hoff.mem d t hts).mp ht)
  case oneClass =>
    intro d d' t ht ht'
    by_cases hts : t = s
    · subst hts
      rw [hs.mp ht, hs.mp ht']
    · exact h.oneClass d d' t ((hoff.mem d t hts).mp ht) ((hoff.mem d' t hts).mp ht')
  case busy =>
    intro t
    by_cases hts : t = s
    · subst hts
      exact ⟨fun _ => ⟨c, hs.mpr rfl⟩, fun _ => ⟨hf.busy, _, heap_addSpan⟩⟩
    · exact hoff.busy h hts
  case chain =>
    intro d t b ht hb
    by_cases hts : t = s
    · subst hts
      obtain rfl := hs.mp ht
      obtain rfl := Option.some.inj (heap_addSpan.symm.trans hb)
      rw [blocksOf_carve, carve_freeList hempty.2]
      constructor
      · exact List.nodup_reverse.mpr (blocksOf_nodup (by omega))
      · intro x
        rw [List.mem_reverse]
        constructor
        · exact fun hx => ⟨hx, if_pos hx⟩
        · exact And.left
    · have ht' := (hoff.mem d t hts).mp ht
      have hb' := (hoff.heap_iff h ht' hts).mp hb
      apply (h.chain d t b ht' hb').congr
      intro x
      apply and_congr_right
      intro hx
      rw [Pool.relocate, if_neg (h.fetched_apart hf hc ha ht' hb' hx)]
  case used =>
    intro d t b ht hb
    by_cases hts : t = s
    · subst hts
      obtain rfl := hs.mp ht
      obtain rfl := Option.some.inj (heap_addSpan.symm.trans hb)
      rw [blocksOf_carve, carve_freeList hempty.2, List.length_reverse]
      show a.used + _ = _
      rw [hempty.1, Nat.zero_add]
    · have ht' := (hoff.mem d t hts).mp ht
      exact h.used d t b ht' ((hoff.heap_iff h ht' hts).mp hb)

/-- The blocks that are away are away as before, and no span goes. -/
theorem Inv.sameAt_addSpan (h : cc.Inv kind loc) (hc : c < maxArraySize) {pages : Nat}
    {pc' : PageCache} {kind' : SpanId → Kind}
    (hf : PageCache.Fetched cc.pageCache kind pages pc' kind' s) (ha : pc'.heap s = some a) :
    SameAt cc loc (cc.addSpan pc' c s a)
        (Pool.relocate loc (blocksOf a (Size.indexToSize c)) .home) (· ≠ .home) ∧
      cc.Within (cc.addSpan pc' c s a) := by
  have hnew : ∀ d, s ∉ cc.spans d := h.fetched_new hf
  have hoff : AgreeOff s cc kind (cc.addSpan pc' c s a) kind' := agree_addSpan hf
  constructor
  · apply hoff.sameAt h
    · exact fun d b x hs => absurd hs (hnew d)
    · intro d b x hs hb hx
      obtain rfl := (h.mem_addSpan hf).mp hs
      obtain rfl := Option.some.inj (heap_addSpan.symm.trans hb)
      rw [blocksOf_carve] at hx
      exact if_pos hx
    · intro d t b x _ ht hb hx
      exact if_neg (h.fetched_apart hf hc ha ht hb hx)
  · intro d t b ht hb
    have hts : t ≠ s := fun e => hnew d (e ▸ ht)
    exact ⟨(hoff.mem d t hts).mpr ht, b, (hoff.heap_iff h ht hts).mpr hb, rfl⟩

/-- `_GetFreeSpan` finds or makes a span with a free block. -/
theorem Inv.getFreeSpan (h : cc.Inv kind loc) (huse : cc.InUseBut none) (hc : c < maxArraySize)
    {system : Addr} (hsystem : cc.pageCache.FreshRegion system) :
    ∃ cc' kind' loc' s a, cc.getFreeSpan (Size.indexToSize c) (some system) = some (cc', some s) ∧
      cc'.Inv kind' loc' ∧ cc'.InUseBut (some s) ∧ s ∈ cc'.spans c ∧
      cc'.pageCache.heap s = some a ∧ a.freeList.chain ≠ [] ∧
      SameAt cc loc cc' loc' (· ≠ .home) ∧ cc.Within cc' := by
  obtain ⟨hmin, hmax⟩ := Size.indexToSize_bounds hc
  unfold CentralCache.getFreeSpan
  simp only [Size.sizeToIndex_indexToSize hc, Option.bind_eq_bind]
  rcases findFree_spec (fun s hs => (h.span hs).2 : ∀ s ∈ cc.spans c, _) with
    hrun | ⟨s, a, hs, ha, hne, hrun⟩
  · obtain ⟨hpages, hpagesMax, hroom⟩ := pageCountFor_bounds hmin hmax
    have hregion : ∀ p, some system = some p → cc.pageCache.FreshRegion p :=
      fun p hp => Option.some.inj hp ▸ hsystem
    rcases h.pages.fetchSpan hpages hpagesMax hregion with
      ⟨s, pc', kind', hfetch, hf⟩ | ⟨hnone, _⟩
    · obtain ⟨a, ha, hcount, hcleanSpan⟩ := hf.span
      have hempty := hcleanSpan h.clean
      obtain ⟨hsame, hwithin⟩ := h.sameAt_addSpan hc hf ha
      refine ⟨cc.addSpan pc' c s a, kind', _, s, _, ?_, h.addSpan hc hf ha hempty, ?_,
        (h.mem_addSpan hf).mpr rfl, heap_addSpan, ?_, hsame, hwithin⟩
      · rw [hrun, Option.bind_some]
        dsimp only
        rw [hfetch, Option.bind_some]
        dsimp only
        rw [ha, Option.bind_some]
        rfl
      · intro d t b ht hb hts
        have hne : t ≠ s := fun e => hts (by rw [e])
        have hoff : AgreeOff s cc kind (cc.addSpan pc' c s a) kind' := agree_addSpan hf
        have ht' := (hoff.mem d t hne).mp ht
        exact huse d t b ht' ((hoff.heap_iff h ht' hne).mp hb) fun e => nomatch e
      · rw [carve_freeList hempty.2]
        dsimp only
        intro hnil
        have hlen := congrArg List.length hnil
        rw [List.length_reverse, blocksOf_length, hcount] at hlen
        have hone := Nat.div_pos hroom (by omega : 0 < Size.indexToSize c)
        rw [hlen] at hone
        exact absurd hone (Nat.lt_irrefl 0)
    · cases hnone
  · refine ⟨cc, kind, loc, s, a, ?_, h, ?_, hs, ha, hne, fun v _ d x => Iff.rfl, Within.refl cc⟩
    · rw [hrun, Option.bind_some]
    · intro d t b ht hb _
      exact huse d t b ht hb fun e => nomatch e

/-! ### Fetching a range -/

/-- The loop takes at least one block, off the front of the free list. -/
theorem fetchLoop_eq {count : Nat} (head : List Addr) (hne : a.freeList.chain ≠ [])
    (hcount : 1 ≤ count) :
    ∃ n, 1 ≤ n ∧ n ≤ a.freeList.chain.length ∧ fetchLoop count a head = some
      ({ a with
        freeList := { a.freeList with chain := a.freeList.chain.drop n }
        used := a.used + n }, (a.freeList.chain.take n).reverse ++ head) := by
  induction count generalizing a head with
  | zero => omega
  | succ count ih =>
    cases hchain : a.freeList.chain with
    | nil => exact absurd hchain hne
    | cons x rest =>
      rw [fetchLoop, FreeList.popFront, hchain]
      simp only [Option.bind_eq_bind, Option.bind_some]
      by_cases hrest : rest = []
      · subst hrest
        exact ⟨1, Nat.le_refl _, Nat.le_refl _, rfl⟩
      · have hempty : ¬ rest.isEmpty = true := by
          rw [List.isEmpty_iff]
          exact hrest
        rw [if_neg hempty]
        by_cases hzero : count = 0
        · subst hzero
          exact ⟨1, Nat.le_refl _, by simp, rfl⟩
        · obtain ⟨n, _, hn, hrun⟩ := ih (x :: head)
            (a := { a with freeList := { a.freeList with chain := rest }, used := a.used + 1 })
            hrest (by omega)
          refine ⟨n + 1, by omega, by simpa using hn, ?_⟩
          rw [hrun]
          simp [Nat.add_comm, Nat.add_left_comm]

/-- `fetchRange` hands out blocks of the class that were at home. -/
theorem Inv.fetchRange (h : cc.Inv kind loc) (huse : cc.InUseBut none)
    (hnone : ∀ d x, ¬ cc.At loc d .moving x) (hc : c < maxArraySize) {count : Nat}
    (hcount : 1 ≤ count) {system : Addr} (hsystem : cc.pageCache.FreshRegion system) :
    ∃ cc' kind' loc' l, cc.fetchRange (Size.indexToSize c) count (some system) = some (cc', l) ∧
      cc'.Inv kind' loc' ∧ cc'.InUseBut none ∧ l ≠ [] ∧ l.Nodup ∧
      (∀ d x, cc'.At loc' d .moving x ↔ d = c ∧ x ∈ l) ∧
      SameAt cc loc cc' loc' (fun v => v ≠ .home ∧ v ≠ .moving) ∧ cc.Within cc' := by
  obtain ⟨cc₁, kind₁, loc₁, s, a, hrun, hinv, huse₁, hs, ha, hne, hsame, hwithin⟩ :=
    h.getFreeSpan huse hc hsystem
  obtain ⟨n, hn, hle, hloop⟩ := fetchLoop_eq [] hne hcount
  obtain ⟨b, hb⟩ : ∃ b : Span, b = { a with
      freeList := { a.freeList with chain := a.freeList.chain.drop n }
      used := a.used + n } := ⟨_, rfl⟩
  rw [← hb] at hloop
  obtain ⟨taken, htaken⟩ : ∃ taken, taken = a.freeList.chain.take n := ⟨_, rfl⟩
  rw [← htaken] at hloop
  have hext : b.extent = a.extent := by rw [hb]; rfl
  have hchain := hinv.chain c s a hs ha
  -- what has been taken is of this span, and was at home
  have hfrom : ∀ x ∈ taken, x ∈ blocksOf a (Size.indexToSize c) ∧ loc₁ x = .home := by
    intro x hx
    rw [htaken] at hx
    exact (hchain.mem x).mp (List.mem_of_mem_take hx)
  have hmem : ∀ x ∈ taken, cc₁.At loc₁ c .home x :=
    fun x hx => ⟨⟨s, a, hs, ha, (hfrom x hx).1⟩, (hfrom x hx).2⟩
  have hloc : ∀ x, Pool.relocate loc₁ taken .moving x = .home ↔ loc₁ x = .home ∧ x ∉ taken := by
    intro x
    unfold Pool.relocate
    split
    · next hx => simp [hx]
    · next hx => simp [hx]
  have hset : (cc₁.setSpan s b).Inv kind₁ (Pool.relocate loc₁ taken .moving) := by
    apply hinv.setSpan hs ha hext
    · rw [hb]
      apply hchain.drop n
      intro x
      rw [hloc, htaken, and_assoc]
    · have hused := hinv.used c s a hs ha
      rw [hb]
      dsimp only
      rw [List.length_drop]
      omega
    · intro x hx
      rw [hloc]
      exact and_iff_left fun hm => hx (hfrom x hm).1
  refine ⟨cc₁.setSpan s b, kind₁, Pool.relocate loc₁ taken .moving, taken.reverse, ?_, hset, ?_, ?_,
    ?_, ?_, ?_, ?_⟩
  · rw [CentralCache.fetchRange, hrun]
    simp only [Option.bind_eq_bind, Option.bind_some]
    rw [ha, Option.bind_some, hloop, Option.bind_some, List.append_nil]
  · apply inUseBut_setSpan huse₁
    · rw [hb]
      show 0 < a.used + n
      omega
    · intro t ht
      exact (Option.some.inj ht).symm
  · intro hnil
    have hlen := congrArg List.length hnil
    rw [List.length_reverse, htaken, List.length_take, List.length_nil] at hlen
    omega
  · rw [List.nodup_reverse, htaken]
    exact hchain.nodup.sublist (List.take_sublist n _)
  · intro d x
    rw [at_setSpan ha hext, at_move_target hinv hmem, List.mem_reverse]
    apply or_iff_right
    rw [hsame .moving (by decide)]
    exact hnone d x
  · rintro v ⟨hhome, hmoving⟩ d x
    rw [at_setSpan ha hext, at_move_other hmem hhome hmoving, hsame v hhome d x]
  · apply hwithin.trans
    apply within_setSpan
    intro e he
    rw [hext, Option.some.inj (ha.symm.trans he)]

/-! ### Returning a range -/

/-- A span leaves the list of its class. -/
def dropSpan (cc : CentralCache) (pc' : PageCache) (c : Nat) (s : SpanId) : CentralCache where
  pageCache := pc'
  spans := Function.update cc.spans c ((cc.spans c).erase s)

section Dropped

variable {pc' : PageCache} {kind' : SpanId → Kind} (h : cc.Inv kind loc) (hs : s ∈ cc.spans c)

include h

theorem Inv.nodup_dropSpan (d : Nat) : ((cc.dropSpan pc' c s).spans d).Nodup := by
  show (Function.update cc.spans c ((cc.spans c).erase s) d).Nodup
  by_cases hd : d = c
  · rw [hd, Function.update_self]
    exact (h.nodup c).erase s
  · rw [Function.update_of_ne hd]
    exact h.nodup d

include hs

theorem Inv.mem_dropSpan : t ∈ (cc.dropSpan pc' c s).spans d ↔ t ∈ cc.spans d ∧ t ≠ s := by
  show t ∈ Function.update cc.spans c ((cc.spans c).erase s) d ↔ _
  by_cases hd : d = c
  · rw [hd, Function.update_self, (h.nodup c).mem_erase_iff, and_comm]
  · rw [Function.update_of_ne hd]
    constructor
    · exact fun ht => ⟨ht, fun e => hd (h.oneClass d c s (e ▸ ht) hs)⟩
    · exact And.left

/-- Only the span that goes is another. -/
theorem Inv.agree_dropSpan (hr : PageCache.Returned (cc.setSpan s b).pageCache kind pc' kind' s b) :
    AgreeOff s cc kind (cc.dropSpan pc' c s) kind' where
  mem := by
    intro d t hts
    rw [h.mem_dropSpan hs]
    exact and_iff_left hts
  others := by
    intro t e hts
    show kind' t = .busy ∧ pc'.heap t = some e ↔ _
    rw [hr.others t e hts]
    show kind t = .busy ∧ Function.update cc.pageCache.heap s (some b) t = some e ↔ _
    rw [Function.update_of_ne hts]

/-- The spans that stay are as they were. -/
theorem Inv.of_dropSpan
    (hr : PageCache.Returned (cc.setSpan s b).pageCache kind pc' kind' s b)
    (ht : t ∈ (cc.dropSpan pc' c s).spans d)
    (ha : (cc.dropSpan pc' c s).pageCache.heap t = some a) :
    t ∈ cc.spans d ∧ cc.pageCache.heap t = some a := by
  obtain ⟨ht', hts⟩ := (h.mem_dropSpan hs).mp ht
  exact ⟨ht', ((h.agree_dropSpan hs hr).heap_iff h ht' hts).mp ha⟩

theorem Inv.dropSpan (hr : PageCache.Returned (cc.setSpan s b).pageCache kind pc' kind' s b)
    (hb : b.used = 0 ∧ b.freeList = FreeList.new) : (cc.dropSpan pc' c s).Inv kind' loc := by
  have hk := (h.span hs).1
  have hmem : ∀ {d t}, t ∈ (cc.dropSpan pc' c s).spans d ↔ t ∈ cc.spans d ∧ t ≠ s :=
    h.mem_dropSpan hs
  constructor
  case pages => exact hr.inv
  case settled =>
    apply hr.settled (settled_setSpan h.settled _)
    rw [hk]
    decide
  case clean => exact hr.clean (clean_setSpan h.clean hk) hb.1 hb.2
  case nodup => exact h.nodup_dropSpan
  case range => exact fun d t ht => h.range d t (hmem.mp ht).1
  case oneClass => exact fun d d' t ht ht' => h.oneClass d d' t (hmem.mp ht).1 (hmem.mp ht').1
  case busy =>
    intro t
    by_cases hts : t = s
    · subst hts
      constructor
      · rintro ⟨hkt, _⟩
        rw [hr.free] at hkt
        cases hkt
      · rintro ⟨d, ht⟩
        exact absurd rfl (hmem.mp ht).2
    · exact (h.agree_dropSpan hs hr).busy h hts
  case chain =>
    intro d t e ht he
    obtain ⟨ht', he'⟩ := h.of_dropSpan hs hr ht he
    exact h.chain d t e ht' he'
  case used =>
    intro d t e ht he
    obtain ⟨ht', he'⟩ := h.of_dropSpan hs hr ht he
    exact h.used d t e ht' he'

end Dropped

/-- A span all of whose blocks are at home leaves the central cache. -/
theorem Inv.removeSpan (h : cc.Inv kind loc) (huse : cc.InUseBut (some s)) (hs : s ∈ cc.spans c)
    (ha : cc.pageCache.heap s = some a)
    (hhome : ∀ x ∈ blocksOf a (Size.indexToSize c), loc x = .home) (hext : b.extent = a.extent)
    (hb : b.used = 0 ∧ b.freeList = FreeList.new) :
    ∃ pc' kind', (cc.setSpan s b).pageCache.returnSpan s = some pc' ∧
      (cc.dropSpan pc' c s).Inv kind' loc ∧ (cc.dropSpan pc' c s).InUseBut none ∧
      SameAt cc loc (cc.dropSpan pc' c s) loc (· ≠ .home) ∧
      (cc.dropSpan pc' c s).Within cc := by
  have htouched := h.pages.touch ha hext
  have hheap : (cc.setSpan s b).pageCache.heap s = some b := Function.update_self ..
  obtain ⟨pc', kind', hrun, hr⟩ := htouched.returnSpan hheap (h.span hs).1
  have hoff := h.agree_dropSpan hs hr
  refine ⟨pc', kind', hrun, h.dropSpan hs hr hb, ?_, ?_, ?_⟩
  · intro d t e ht he _
    obtain ⟨ht', he'⟩ := h.of_dropSpan hs hr ht he
    have hts := ((h.mem_dropSpan hs).mp ht).2
    exact huse d t e ht' he' fun heq => hts (Option.some.inj heq).symm
  · apply hoff.sameAt h
    · intro d e x hs' he hx
      obtain rfl := h.oneClass d c s hs' hs
      obtain rfl := Option.some.inj (ha.symm.trans he)
      exact hhome x hx
    · exact fun d e x hs' => absurd rfl ((h.mem_dropSpan hs).mp hs').2
    · exact fun _ _ _ _ _ _ _ _ => rfl
  · intro d t e ht he
    obtain ⟨ht', he'⟩ := h.of_dropSpan hs hr ht he
    exact ⟨ht', e, he', rfl⟩

/-! ### One block comes back -/

theorem relocate_home {y : Addr} :
    Pool.relocate loc [x] .home y = .home ↔ y = x ∨ loc y = .home := by
  unfold Pool.relocate
  by_cases hy : y = x
  · simp [hy]
  · simp [hy]

/-- The other places lose the block. -/
theorem at_relocate_home {v : Place} (hv : v ≠ .home) (y : Addr) :
    cc.At (Pool.relocate loc [x] .home) d v y ↔ cc.At loc d v y ∧ y ≠ x := by
  rw [at_move_source hv, List.mem_singleton]

theorem Inv.used_le (h : cc.Inv kind loc) (hs : s ∈ cc.spans c)
    (ha : cc.pageCache.heap s = some a) : a.used ≤ 128 * 4096 := by
  have hused := h.used c s a hs ha
  have hcount : a.pageCount ≤ 128 := h.pages.count_le ha
  have hdiv := Nat.div_le_self (a.pageCount * 4096) (Size.indexToSize c)
  rw [blocksOf_length] at hused
  omega

/-- The free list of the span and its count, after the block has come home. -/
theorem Inv.comeHome (h : cc.Inv kind loc) (hs : s ∈ cc.spans c)
    (ha : cc.pageCache.heap s = some a) (hx : x ∈ blocksOf a (Size.indexToSize c))
    (hplace : loc x = .moving) (hpos : 0 < a.used) (hext : b.extent = a.extent)
    (hlist : b.freeList = a.freeList.pushFront x) (hused : b.used = a.used - 1) :
    (cc.setSpan s b).Inv kind (Pool.relocate loc [x] .home) := by
  have hchain := h.chain c s a hs ha
  have hcount := h.used c s a hs ha
  apply h.setSpan hs ha hext
  · rw [hlist]
    apply hchain.cons
    · rintro ⟨_, hh⟩
      rw [hplace] at hh
      cases hh
    · intro y
      rw [relocate_home]
      constructor
      · rintro ⟨hy, rfl | hh⟩
        · exact .inl rfl
        · exact .inr ⟨hy, hh⟩
      · rintro (rfl | ⟨hy, hh⟩)
        · exact ⟨hx, .inl rfl⟩
        · exact ⟨hy, .inr hh⟩
  · have hlen : b.freeList.chain.length = a.freeList.chain.length + 1 := by
      rw [hlist]
      rfl
    omega
  · intro y hy
    rw [relocate_home]
    constructor
    · rintro (rfl | hh)
      · exact absurd hx hy
      · exact hh
    · exact .inr

/-- Every block of a span that is not in use is on its free list. -/
theorem Inv.all_home (h : cc.Inv kind loc) (hs : s ∈ cc.spans c)
    (ha : cc.pageCache.heap s = some a) (hzero : a.used = 0) :
    ∀ y ∈ blocksOf a (Size.indexToSize c), loc y = .home := by
  intro y hy
  have hblocks : Lists (blocksOf a (Size.indexToSize c))
      (· ∈ blocksOf a (Size.indexToSize c)) :=
    ⟨blocksOf_nodup (h.size_pos hs), fun _ => Iff.rfl⟩
  have hcount := h.used c s a hs ha
  exact ((h.chain c s a hs ha).mem_of_length hblocks (fun _ hz => hz.1) (by omega) hy).2

/-- `returnRange` takes one block back. -/
theorem Inv.returnObject (h : cc.Inv kind loc) (huse : cc.InUseBut none)
    (hx : cc.At loc c .moving x) :
    ∃ cc' kind', cc.returnObject c x = some cc' ∧
      cc'.Inv kind' (Pool.relocate loc [x] .home) ∧ cc'.InUseBut none ∧
      (∀ v, v ≠ .home → ∀ d y, cc'.At (Pool.relocate loc [x] .home) d v y ↔
        cc.At loc d v y ∧ y ≠ x) ∧ cc'.Within cc := by
  obtain ⟨⟨s, a, hs, ha, hmem⟩, hplace⟩ := hx
  have hfind := h.objectToSpan hs ha hmem
  have hpos := huse c s a hs ha fun e => nomatch e
  have hbound := h.used_le hs ha
  have hless : (a.used + 2 ^ 64 - 1) % 2 ^ 64 = a.used - 1 := by omega
  obtain ⟨b, hb⟩ : ∃ b : Span, b = { a with
      freeList := a.freeList.pushFront x
      used := (a.used + 2 ^ 64 - 1) % 2 ^ 64 } := ⟨_, rfl⟩
  have hext : b.extent = a.extent := by
    unfold Span.extent
    rw [hb]
  have hset : (cc.setSpan s b).Inv kind (Pool.relocate loc [x] .home) := by
    apply h.comeHome hs ha hmem hplace hpos hext
    · rw [hb]
    · rw [hb]
      exact hless
  have hheap : (cc.setSpan s b).pageCache.heap s = some b := Function.update_self ..
  have hrun : cc.returnObject c x =
      if b.used = 0 then do
        let list ← eraseSpan (cc.spans c) s
        let cc := { cc with spans := Function.update cc.spans c list }
        let cc := cc.setSpan s { b with freeList := b.freeList.clear }
        let pageCache ← cc.pageCache.returnSpan s
        some { cc with pageCache := pageCache }
      else some (cc.setSpan s b) := by
    rw [CentralCache.returnObject, hfind]
    simp only [Option.bind_eq_bind, Option.bind_some]
    rw [ha, Option.bind_some, hb]
  rw [hrun]
  by_cases hzero : b.used = 0
  · rw [if_pos hzero]
    have huseBut : (cc.setSpan s b).InUseBut (some s) := by
      intro d t e ht he hts
      rcases heap_setSpan.mp he with ⟨rfl, _⟩ | ⟨_, he⟩
      · exact absurd rfl hts
      · exact huse d t e ht he fun e => nomatch e
    obtain ⟨pc', kind', hreturn, hinv, huse', hsame, hwithin⟩ :=
      hset.removeSpan (b := { b with freeList := b.freeList.clear }) huseBut hs hheap
        (hset.all_home hs hheap hzero) rfl ⟨hzero, rfl⟩
    have htwice : (cc.setSpan s b).setSpan s { b with freeList := b.freeList.clear } =
        cc.setSpan s { b with freeList := b.freeList.clear } := by
      unfold CentralCache.setSpan
      dsimp only
      rw [Function.update_idem]
    rw [htwice] at hreturn
    refine ⟨_, kind', ?_, hinv, huse', ?_, hwithin.trans (setSpan_within ha hext)⟩
    · simp only [Option.bind_eq_bind]
      rw [show eraseSpan (cc.spans c) s = some ((cc.spans c).erase s) from if_pos hs,
        Option.bind_some]
      show ((cc.setSpan s { b with freeList := b.freeList.clear }).pageCache.returnSpan s).bind _
        = _
      rw [hreturn, Option.bind_some]
      rfl
    · intro v hv d y
      rw [hsame v hv d y, at_relocate_home hv y, at_setSpan ha hext]
  · rw [if_neg hzero]
    refine ⟨_, kind, rfl, hset, inUseBut_setSpan huse (Nat.pos_of_ne_zero hzero)
      (fun t ht => nomatch ht), ?_, setSpan_within ha hext⟩
    intro v hv d y
    rw [at_relocate_home hv y, at_setSpan ha hext]

/-- `returnRange` takes back all blocks that are on the way. -/
theorem Inv.returnRange (h : cc.Inv kind loc) (huse : cc.InUseBut none) (hc : c < maxArraySize)
    {l : List Addr} (hnodup : l.Nodup) (hl : ∀ d x, cc.At loc d .moving x ↔ d = c ∧ x ∈ l) :
    ∃ cc' kind' loc', cc.returnRange (Size.indexToSize c) l = some cc' ∧ cc'.Inv kind' loc' ∧
      cc'.InUseBut none ∧ (∀ d x, ¬ cc'.At loc' d .moving x) ∧
      SameAt cc loc cc' loc' (fun v => v ≠ .home ∧ v ≠ .moving) ∧ cc'.Within cc := by
  induction l generalizing cc kind loc with
  | nil =>
    refine ⟨cc, kind, loc, rfl, h, huse, ?_, fun v _ d x => Iff.rfl, Within.refl cc⟩
    intro d x hx
    exact absurd ((hl d x).mp hx).2 List.not_mem_nil
  | cons x l ih =>
    obtain ⟨hx, hnodup⟩ := List.nodup_cons.mp hnodup
    obtain ⟨cc₁, kind₁, hrun, hinv, huse₁, hat, hwithin₁⟩ :=
      h.returnObject huse ((hl c x).mpr ⟨rfl, List.mem_cons_self⟩)
    have hrest : ∀ d y, cc₁.At (Pool.relocate loc [x] .home) d .moving y ↔ d = c ∧ y ∈ l := by
      intro d y
      rw [hat .moving (by decide), hl, List.mem_cons]
      constructor
      · rintro ⟨⟨hd, hy⟩, hne⟩
        exact ⟨hd, hy.resolve_left hne⟩
      · rintro ⟨hd, hy⟩
        exact ⟨⟨hd, .inr hy⟩, fun e => hx (e ▸ hy)⟩
    obtain ⟨cc', kind', loc', hrun', hinv', huse', hnone, hsame, hwithin⟩ :=
      ih hinv huse₁ hnodup hrest
    refine ⟨cc', kind', loc', ?_, hinv', huse', hnone, ?_, hwithin.trans hwithin₁⟩
    · rw [CentralCache.returnRange, Size.sizeToIndex_indexToSize hc, hrun]
      exact hrun'
    · rintro v ⟨hhome, hmoving⟩ d y
      rw [hsame v ⟨hhome, hmoving⟩ d y, hat v hhome d y]
      apply and_iff_left_of_imp
      rintro hy rfl
      have hplace := ((hl c y).mpr ⟨rfl, List.mem_cons_self⟩).2
      exact hmoving (hy.2.symm.trans hplace)

end Inv

end CentralCache

end Pool

end WWRaftKV
