/-
The functions of the page cache keep the partition.
-/
import WWRaftKV.Pool.Partition

namespace WWRaftKV

namespace Pool

namespace PageCache

/-- A span object that nobody uses holds no blocks. -/
def Clean (pc : PageCache) (kind : SpanId → Kind) : Prop :=
  ∀ t b, kind t ≠ .busy → pc.heap t = some b → b.used = 0 ∧ b.freeList = FreeList.new

/-- Between two calls no span is in hand. -/
def Settled (pc : PageCache) (kind : SpanId → Kind) : Prop :=
  ∀ t b, pc.heap t = some b → kind t ≠ .hand

/-- The two states have the same busy spans but for `s`. -/
def SameBusy (pc : PageCache) (kind : SpanId → Kind) (pc' : PageCache) (kind' : SpanId → Kind)
    (s : SpanId) : Prop :=
  ∀ t b, t ≠ s → (kind' t = .busy ∧ pc'.heap t = some b ↔ kind t = .busy ∧ pc.heap t = some b)

/-- `s` has been made busy, with this number of pages. -/
structure Fetched (pc : PageCache) (kind : SpanId → Kind) (pages : Nat) (pc' : PageCache)
    (kind' : SpanId → Kind) (s : SpanId) : Prop where
  inv : pc'.Inv kind'
  busy : kind' s = .busy
  notBusy : kind s = .busy → pc.heap s = none
  span : ∃ a, pc'.heap s = some a ∧ a.pageCount = pages ∧
    (pc.Clean kind → a.used = 0 ∧ a.freeList = FreeList.new)
  others : pc.SameBusy kind pc' kind' s
  clean : pc.Clean kind → pc'.Clean kind'
  settled : pc.Settled kind → pc'.Settled kind'

/-! ## Making spans free and busy -/

/-- The other busy spans stay, and the state stays clean and settled. -/
structure Follows (pc : PageCache) (kind : SpanId → Kind) (pc' : PageCache)
    (kind' : SpanId → Kind) (s : SpanId) : Prop where
  others : pc.SameBusy kind pc' kind' s
  clean : pc.Clean kind → pc'.Clean kind'
  settled : pc.Settled kind → pc'.Settled kind'

section Follow

variable {pc pc' pc₁ : PageCache} {kind kind₁ : SpanId → Kind} {s t u : SpanId} {b : Span}

theorem Follows.refl (pc : PageCache) (kind : SpanId → Kind) (s : SpanId) :
    Follows pc kind pc kind s where
  others := fun _ _ _ => Iff.rfl
  clean := id
  settled := id

/-- `s` becomes busy. -/
theorem Follows.busy (h : Follows pc kind pc₁ kind₁ s)
    (hheap : ∀ t, t ≠ s → pc'.heap t = pc₁.heap t) :
    Follows pc kind pc' (Function.update kind₁ s .busy) s where
  others := by
    intro t d hts
    rw [Function.update_of_ne hts, hheap t hts]
    exact h.others t d hts
  clean := by
    intro hclean t d ht hd
    by_cases hts : t = s
    · rw [hts, Function.update_self] at ht
      exact absurd rfl ht
    · rw [Function.update_of_ne hts] at ht
      rw [hheap t hts] at hd
      exact h.clean hclean t d ht hd
  settled := by
    intro hsettled t d hd
    by_cases hts : t = s
    · rw [hts, Function.update_self]
      decide
    · rw [Function.update_of_ne hts]
      rw [hheap t hts] at hd
      exact h.settled hsettled t d hd

/-- A span is made, and it is busy at once. -/
theorem follows_whole (pc pc' : PageCache) (kind : SpanId → Kind) (s : SpanId) (b : Span)
    (hheap : pc'.heap = Function.update pc.heap s (some b)) :
    Follows pc kind pc' (Function.update kind s .busy) s := by
  apply (Follows.refl pc kind s).busy
  intro t ht
  rw [hheap, Function.update_of_ne ht]

/-- A span that was not busy becomes free, as `b`. -/
theorem follows_free (hu : kind u = .busy → pc.heap u = none)
    (hb : pc.Clean kind → b.used = 0 ∧ b.freeList = FreeList.new)
    (hheap : pc'.heap = Function.update pc.heap u (some b)) :
    Follows pc kind pc' (Function.update kind u .free) s where
  others := by
    intro t d _
    rw [hheap]
    by_cases htu : t = u
    · rw [htu, Function.update_self, Function.update_self]
      constructor
      · rintro ⟨hk, _⟩
        cases hk
      · rintro ⟨hk, hd⟩
        exact nomatch (hu hk).symm.trans hd
    · rw [Function.update_of_ne htu, Function.update_of_ne htu]
  clean := by
    intro hclean t d ht hd
    rw [hheap] at hd
    rcases update_eq_some.mp hd with ⟨rfl, rfl⟩ | ⟨htu, hd⟩
    · exact hb hclean
    · rw [Function.update_of_ne htu] at ht
      exact hclean t d ht hd
  settled := by
    intro hsettled t d hd
    rw [hheap] at hd
    rcases update_eq_some.mp hd with ⟨rfl, _⟩ | ⟨htu, hd⟩
    · rw [Function.update_self]
      decide
    · rw [Function.update_of_ne htu]
      exact hsettled t d hd

/-- The front of a span becomes free, and its back busy. -/
theorem follows_cut (pc' : PageCache) (s : SpanId) (back : Span)
    (hu : kind u = .busy → pc.heap u = none)
    (hb : pc.Clean kind → b.used = 0 ∧ b.freeList = FreeList.new)
    (hheap : pc'.heap = Function.update (Function.update pc.heap u (some b)) s (some back)) :
    Follows pc kind pc' (Function.update (Function.update kind u .free) s .busy) s := by
  have hfree : Follows pc kind { pc with heap := Function.update pc.heap u (some b) }
      (Function.update kind u .free) s := follows_free hu hb rfl
  apply hfree.busy
  intro t ht
  rw [hheap, Function.update_of_ne ht]

/-- The kinds of the two parts after they have been in hand. -/
theorem kind_cut (hst : s ≠ t) :
    Function.update (Function.update (Function.update (Function.update kind s .hand) t .hand) s
      .free) t .busy = Function.update (Function.update kind s .free) t .busy := by
  rw [Function.update_comm hst, Function.update_idem, Function.update_comm hst.symm,
    Function.update_idem]

end Follow

section Fetch

variable {pc : PageCache} {kind : SpanId → Kind} {pages i : Nat} {s : SpanId}
  {rest : List SpanId}

/-- The first span of a list. -/
theorem Inv.front (h : pc.Inv kind) (hs : pc.spans i = s :: rest) :
    kind s = .free ∧ ∃ a, pc.heap s = some a ∧ a.pageCount = i + 1 := by
  have hmem : s ∈ pc.spans i := by
    rw [hs]
    exact List.mem_cons_self
  obtain ⟨e, ⟨hk, he⟩, hlen⟩ := (h.listed i s).mp hmem
  obtain ⟨a, ha, rfl⟩ := heap_of_extents he
  exact ⟨hk, a, ha, hlen⟩

theorem Inv.fetchExact (h : pc.Inv kind) (hpages : 1 ≤ pages)
    (hs : pc.spans (pages - 1) = s :: rest) :
    ∃ pc' kind', pc.fetchExact pages s rest = some (pc', some s) ∧
      Fetched pc kind pages pc' kind' s := by
  obtain ⟨hk, a, ha, hcount⟩ := h.front hs
  obtain rfl : a.pageCount = pages := by omega
  have htaken := h.takeFree ha hk (hs ▸ without_tail s rest)
  have hput := htaken.putBusy ha (Function.update_self ..)
  rw [Function.update_idem] at hput
  have hf := (Follows.refl pc kind s).busy fun _ _ => rfl
  refine ⟨_, _, by rw [PageCache.fetchExact, ha]; rfl, hput, Function.update_self ..,
    ?_, ?_, hf.others, hf.clean, hf.settled⟩
  · intro hbusy
    rw [hk] at hbusy
    cases hbusy
  · exact ⟨a, ha, rfl, fun hclean => hclean s a (by rw [hk]; decide) ha⟩

/-- Cutting the end off a free span changes one key. -/
theorem setEnds_eraseEnds {m : SpanMap} {a b : Span} (hm : m a.pageId = some s)
    (hid : b.pageId = a.pageId) (hlong : a.pageId + a.pageCount - 1 ≠ a.pageId) :
    (m.eraseEnds a).setEnds b s =
      Function.update (Function.update m (a.pageId + a.pageCount - 1) none)
        (b.pageId + b.pageCount - 1) (some s) := by
  unfold SpanMap.setEnds SpanMap.eraseEnds
  funext k
  by_cases hlast : k = b.pageId + b.pageCount - 1
  · rw [hlast, Function.update_self, Function.update_self]
  rw [Function.update_of_ne hlast, Function.update_of_ne hlast, hid]
  by_cases hfirst : k = a.pageId
  · rw [hfirst, Function.update_self, Function.update_of_ne hlong.symm, hm]
  rw [Function.update_of_ne hfirst]
  by_cases hold : k = a.pageId + a.pageCount - 1
  · rw [hold, Function.update_self, Function.update_self]
  · rw [Function.update_of_ne hold, Function.update_of_ne hold, Function.update_of_ne hfirst]

theorem Inv.fetchSplit (h : pc.Inv kind) (hpages : 1 ≤ pages) (hi : pages ≤ i)
    (hs : pc.spans i = s :: rest) :
    ∃ t pc' kind', pc.fetchSplit pages i s rest = some (pc', some t) ∧
      Fetched pc kind pages pc' kind' t := by
  obtain ⟨hk, a, ha, hcount⟩ := h.front hs
  obtain rfl : i = a.pageCount - 1 := by omega
  have hnone : pc.heap pc.nextSpan = none := h.fresh _ (Nat.le_refl _)
  have hst : s ≠ pc.nextSpan := by
    rintro rfl
    exact nomatch hnone.symm.trans ha
  have hfirst : pc.freeSpanMap a.pageId = some s :=
    (h.freeMap _ _).mpr ((ends_iff ha _ _).mpr ⟨hk, .inl rfl⟩)
  -- the two parts, as the source computes them
  obtain ⟨front, hfront⟩ : ∃ front : Span,
      front = { a with pageCount := a.pageCount - 1 + 1 - pages } := ⟨_, rfl⟩
  obtain ⟨back, hback⟩ : ∃ back : Span,
      back = { Span.new with
        pageId := a.pageId + (a.pageCount - 1) + 1 - pages
        pageCount := pages } := ⟨_, rfl⟩
  have hcut : a.extent.Cut front.extent back.extent := by
    have hae : a.extent = ⟨a.pageId, (a.pageCount - pages) + pages⟩ := by
      unfold Span.extent
      congr 1
      omega
    have hfe : front.extent = ⟨a.pageId, a.pageCount - pages⟩ := by
      unfold Span.extent
      rw [hfront]
      congr 1
      show a.pageCount - 1 + 1 - pages = _
      omega
    have hbe : back.extent = ⟨a.pageId + (a.pageCount - pages), pages⟩ := by
      unfold Span.extent
      rw [hback]
      congr 1
      show a.pageId + (a.pageCount - 1) + 1 - pages = _
      omega
    rw [hae, hfe, hbe]
    exact Extent.cut_at (by omega) (by omega)
  have htaken := h.takeFree ha hk (hs ▸ without_tail s rest)
  have hcutInv := htaken.divide ha (Function.update_self ..) hcut
  have hfrontHeap : (Function.update (Function.update pc.heap s (some front)) pc.nextSpan
      (some back)) s = some front := by
    rw [Function.update_of_ne hst, Function.update_self]
  have hhand : Function.update (Function.update kind s Kind.hand) pc.nextSpan .hand s = .hand := by
    rw [Function.update_of_ne hst, Function.update_self]
  have hputFront := hcutInv.putFree hfrontHeap hhand
  have hhand' : Function.update (Function.update (Function.update kind s Kind.hand) pc.nextSpan
      .hand) s .free pc.nextSpan = .hand := by
    rw [Function.update_of_ne hst.symm, Function.update_self]
  have hput := hputFront.putBusy (Function.update_self ..) hhand'
  rw [kind_cut hst] at hput
  have hnot : kind s = .busy → pc.heap s = none := by
    intro hbusy
    rw [hk] at hbusy
    cases hbusy
  have hclean : pc.Clean kind → front.used = 0 ∧ front.freeList = FreeList.new := by
    intro hclean
    rw [hfront]
    exact hclean s a (by rw [hk]; decide) ha
  have hf := fun pc' => follows_cut pc' pc.nextSpan back hnot hclean
  refine ⟨pc.nextSpan, _, _, ?_, hput, Function.update_self .., fun _ => hnone, ?_,
    (hf _ rfl).others, (hf _ rfl).clean, (hf _ rfl).settled⟩
  · rw [PageCache.fetchSplit, ha]
    have hmap := setEnds_eraseEnds (b := front) hfirst (by rw [hfront]) (by omega)
    have hlast : a.pageId + a.pageCount - 1 =
        front.pageId + front.pageCount + back.pageCount - 1 := by
      rw [hfront, hback]
      dsimp only
      omega
    simp only [Option.bind_eq_bind, Option.bind_some]
    rw [hmap, hlast, hfront, hback]
  · refine ⟨back, Function.update_self .., by rw [hback], fun _ => ?_⟩
    rw [hback]
    exact ⟨rfl, rfl⟩

theorem Inv.fetchSystem (h : pc.Inv kind) (hpages : 1 ≤ pages) (hmax : pages ≤ maxPageNum)
    {p : Nat} (hp : pc.FreshRegion p) :
    ∃ t pc' kind', pc.fetchSystem pages p = (pc', some t) ∧ Fetched pc kind pages pc' kind' t := by
  have hnone : pc.heap pc.nextSpan = none := h.fresh _ (Nat.le_refl _)
  obtain ⟨whole, hwhole⟩ : ∃ whole : Span, whole = { Span.new with
      pageId := Span.ptrToId p
      pageCount := maxPageNum } := ⟨_, rfl⟩
  have hextent : whole.extent = { start := Span.ptrToId p, len := maxPageNum } := by
    rw [hwhole]
    rfl
  have hadded := h.addRegion hp hextent
  have hheap : Function.update pc.heap pc.nextSpan (some whole) pc.nextSpan = some whole :=
    Function.update_self ..
  unfold PageCache.fetchSystem
  by_cases hall : pages = maxPageNum
  · rw [if_pos hall]
    have hput := hadded.putBusy hheap (Function.update_self ..)
    rw [Function.update_idem, hwhole] at hput
    have hf := fun pc' => follows_whole pc pc' kind pc.nextSpan whole
    rw [hwhole] at hf
    refine ⟨_, _, _, rfl, hput, Function.update_self .., fun _ => hnone, ?_, (hf _ rfl).others,
      (hf _ rfl).clean, (hf _ rfl).settled⟩
    exact ⟨_, Function.update_self .., hall.symm, fun _ => ⟨rfl, rfl⟩⟩
  · rw [if_neg hall]
    obtain ⟨front, hfront⟩ : ∃ front : Span, front = { Span.new with
        pageId := Span.ptrToId p
        pageCount := maxPageNum - pages } := ⟨_, rfl⟩
    obtain ⟨back, hback⟩ : ∃ back : Span, back = { Span.new with
        pageId := Span.ptrToId p + maxPageNum - pages
        pageCount := pages } := ⟨_, rfl⟩
    have hcut : whole.extent.Cut front.extent back.extent := by
      have hwe : whole.extent = ⟨Span.ptrToId p, (maxPageNum - pages) + pages⟩ := by
        unfold Span.extent
        rw [hwhole]
        congr 1
        show maxPageNum = _
        omega
      have hfe : front.extent = ⟨Span.ptrToId p, maxPageNum - pages⟩ := by
        rw [hfront]
        rfl
      have hbe : back.extent = ⟨Span.ptrToId p + (maxPageNum - pages), pages⟩ := by
        unfold Span.extent
        rw [hback]
        congr 1
        show Span.ptrToId p + maxPageNum - pages = _
        omega
      rw [hwe, hfe, hbe]
      exact Extent.cut_at (by omega) (by omega)
    have hcutInv := hadded.divide hheap (Function.update_self ..) hcut
    dsimp only at hcutInv
    rw [Function.update_idem] at hcutInv
    have hne : pc.nextSpan ≠ pc.nextSpan + 1 := by omega
    have hfrontHeap : Function.update (Function.update pc.heap pc.nextSpan (some front))
        (pc.nextSpan + 1) (some back) pc.nextSpan = some front := by
      rw [Function.update_of_ne hne, Function.update_self]
    have hputFront := hcutInv.putFree hfrontHeap (by
      rw [Function.update_of_ne hne, Function.update_self])
    have hput := hputFront.putBusy (Function.update_self ..) (by
      rw [Function.update_of_ne hne.symm, Function.update_self])
    have hnone' : pc.heap (pc.nextSpan + 1) = none := h.fresh _ (Nat.le_succ _)
    rw [kind_cut hne, hfront, hback] at hput
    have hnot : kind pc.nextSpan = .busy → pc.heap pc.nextSpan = none := fun _ => hnone
    have hclean : pc.Clean kind → front.used = 0 ∧ front.freeList = FreeList.new := by
      intro _
      rw [hfront]
      exact ⟨rfl, rfl⟩
    have hf := fun pc' => follows_cut pc' (pc.nextSpan + 1) back hnot hclean
    rw [hfront, hback] at hf
    refine ⟨_, _, _, rfl, hput, Function.update_self .., fun _ => hnone', ?_, (hf _ rfl).others,
      (hf _ rfl).clean, (hf _ rfl).settled⟩
    exact ⟨_, Function.update_self .., rfl, fun _ => ⟨rfl, rfl⟩⟩

/-- `fetchSpan` makes a span of the right length busy, unless the system has to be asked and
returns nothing. -/
theorem Inv.fetchSpan (h : pc.Inv kind) (hpages : 1 ≤ pages) (hmax : pages ≤ maxPageNum)
    {system : Option Addr} (hsystem : ∀ p, system = some p → pc.FreshRegion p) :
    (∃ s pc' kind', pc.fetchSpan pages system = some (pc', some s) ∧
      Fetched pc kind pages pc' kind' s) ∨
    (system = none ∧ pc.fetchSpan pages system = some (pc, none)) := by
  unfold PageCache.fetchSpan
  cases hexact : pc.spans (pages - 1) with
  | cons s rest =>
    obtain ⟨pc', kind', hrun, hf⟩ := h.fetchExact hpages hexact
    exact .inl ⟨s, pc', kind', hrun, hf⟩
  | nil =>
    dsimp only
    cases hfind : (List.range' pages (maxPageNum - pages)).find?
        fun i => !(pc.spans i).isEmpty with
    | some i =>
      have hmem := List.mem_of_find?_eq_some hfind
      have hi := List.left_le_of_mem_range' hmem
      have hsome := List.find?_some hfind
      dsimp only
      cases hbigger : pc.spans i with
      | nil =>
        rw [hbigger] at hsome
        cases hsome
      | cons s rest =>
        obtain ⟨t, pc', kind', hrun, hf⟩ := h.fetchSplit hpages hi hbigger
        exact .inl ⟨t, pc', kind', hrun, hf⟩
    | none =>
      dsimp only
      cases system with
      | none => exact .inr ⟨rfl, rfl⟩
      | some p =>
        obtain ⟨t, pc', kind', hrun, hf⟩ := h.fetchSystem hpages hmax (hsystem p rfl)
        exact .inl ⟨t, pc', kind', by rw [← hrun], hf⟩

end Fetch

/-! ## Returning a span -/

/-- From `pc` to `pc'` the span `s` in hand has taken in free spans, and nothing else has
changed. -/
structure Merged (pc : PageCache) (kind : SpanId → Kind) (pc' : PageCache)
    (kind' : SpanId → Kind) (s : SpanId) (a : Span) : Prop where
  inv : pc'.Inv kind'
  hand : kind' s = .hand
  span : ∃ b, pc'.heap s = some b ∧ b.used = a.used ∧ b.freeList = a.freeList
  kept : ∀ t b, t ≠ s → pc'.heap t = some b → pc.heap t = some b ∧ kind' t = kind t
  busy : ∀ t b, t ≠ s → kind t = .busy → pc.heap t = some b →
    pc'.heap t = some b ∧ kind' t = .busy

section Return

variable {pc : PageCache} {kind : SpanId → Kind} {s t : SpanId} {a b : Span}
  {key : Span → Nat} {joined : Span → Span → Span}

/-- Where a loop looks for a neighbour, and how it joins the two. -/
structure Joins (key : Span → Nat) (joined : Span → Span → Span) : Prop where
  cut : ∀ (pc : PageCache) kind s t a b, pc.Inv kind → s ≠ t → pc.heap s = some a →
    pc.heap t = some b → b.extent.IsEnd (key a) →
    (joined a b).extent.Cut a.extent b.extent
  count : ∀ a b, (joined a b).pageCount = b.pageCount + a.pageCount
  used : ∀ a b, (joined a b).used = a.used
  freeList : ∀ a b, (joined a b).freeList = a.freeList

theorem Merged.refl (h : pc.Inv kind) (hs : pc.heap s = some a) (hk : kind s = .hand) :
    Merged pc kind pc kind s a where
  inv := h
  hand := hk
  span := ⟨a, hs, rfl, rfl⟩
  kept := fun _ _ _ ht => ⟨ht, rfl⟩
  busy := fun _ _ _ hkt ht => ⟨ht, hkt⟩

/-- One round. -/
theorem Inv.joinFree (h : pc.Inv kind) (hj : Joins key joined) (hs : pc.heap s = some a)
    (hk : kind s = .hand) (hfind : pc.freeSpanMap (key a) = some t) :
    ∃ b l, pc.heap t = some b ∧ eraseSpan (pc.spans (b.pageCount - 1)) t = some l ∧
      (a.pageCount + b.pageCount ≤ maxPageNum →
        Merged pc kind { pc with
          heap := Function.update (Function.update pc.heap s (some (joined a b))) t none
          spans := Function.update pc.spans (b.pageCount - 1) l
          freeSpanMap := pc.freeSpanMap.eraseEnds b } (Function.update kind t .hand) s a) := by
  obtain ⟨e, ⟨hkt, he⟩, hend⟩ := (h.freeMap _ _).mp hfind
  obtain ⟨b, hb, rfl⟩ := heap_of_extents he
  have hpos := h.pos hb
  have hst : s ≠ t := by
    rintro rfl
    rw [hk] at hkt
    cases hkt
  have hmem : t ∈ pc.spans (b.pageCount - 1) := by
    apply (h.listed _ _).mpr
    refine ⟨_, ⟨hkt, he⟩, ?_⟩
    show b.pageCount = b.pageCount - 1 + 1
    omega
  refine ⟨b, (pc.spans (b.pageCount - 1)).erase t, hb, if_pos hmem, ?_⟩
  intro hle
  have htaken := h.takeFree hb hkt (without_erase _ _)
  have hcut := hj.cut pc kind s t a b h hst hs hb hend
  have hjoined := htaken.join hs hb (by rw [Function.update_of_ne hst, hk])
    (Function.update_self ..) hst hcut (by
      rw [hj.count]
      omega)
  constructor
  · exact hjoined
  · rw [Function.update_of_ne hst, hk]
  · exact ⟨joined a b, by
      dsimp only
      rw [Function.update_of_ne hst, Function.update_self], hj.used a b, hj.freeList a b⟩
  · intro u c hu hc
    dsimp only at hc
    by_cases hut : u = t
    · rw [hut, Function.update_self] at hc
      cases hc
    · rw [Function.update_of_ne hut, Function.update_of_ne hu] at hc
      exact ⟨hc, Function.update_of_ne hut _ _⟩
  · intro u c hu hku hc
    have hut : u ≠ t := by
      rintro rfl
      rw [hku] at hkt
      cases hkt
    dsimp only
    rw [Function.update_of_ne hut, Function.update_of_ne hu, Function.update_of_ne hut]
    exact ⟨hc, hku⟩

theorem Merged.trans {pc' pc'' : PageCache} {kind' kind'' : SpanId → Kind}
    (h : Merged pc kind pc' kind' s a) (hb : pc'.heap s = some b)
    (h' : Merged pc' kind' pc'' kind'' s b) : Merged pc kind pc'' kind'' s a := by
  obtain ⟨b', hb', hused, hlist⟩ := h.span
  obtain rfl := Option.some.inj (hb'.symm.trans hb)
  constructor
  · exact h'.inv
  · exact h'.hand
  · obtain ⟨c, hc, hcu, hcl⟩ := h'.span
    exact ⟨c, hc, hcu.trans hused, hcl.trans hlist⟩
  · intro u c hu hc
    obtain ⟨hmid, hkmid⟩ := h'.kept u c hu hc
    obtain ⟨hold, hkold⟩ := h.kept u c hu hmid
    exact ⟨hold, hkmid.trans hkold⟩
  · intro u c hu hku hc
    obtain ⟨hmid, hkmid⟩ := h.busy u c hu hku hc
    exact h'.busy u c hu hkmid hmid

/-- A loop ends before its rounds run out. -/
theorem Inv.mergeLoop (hj : Joins key joined) (rounds : Nat) (h : pc.Inv kind)
    (hs : pc.heap s = some a) (hk : kind s = .hand) (hrounds : maxPageNum < rounds + a.pageCount) :
    ∃ pc' kind', PageCache.mergeLoop key joined s rounds pc = some pc' ∧
      Merged pc kind pc' kind' s a := by
  induction rounds generalizing pc kind a with
  | zero =>
    have := h.count_le hs
    omega
  | succ rounds ih =>
    rw [PageCache.mergeLoop, hs]
    simp only [Option.bind_eq_bind, Option.bind_some]
    cases hfind : pc.freeSpanMap (key a) with
    | none => exact ⟨pc, kind, rfl, Merged.refl h hs hk⟩
    | some t =>
      obtain ⟨b, l, hb, hl, hround⟩ := h.joinFree hj hs hk hfind
      dsimp only
      rw [hb, Option.bind_some]
      by_cases hbig : a.pageCount + b.pageCount > maxPageNum
      · rw [if_pos hbig]
        exact ⟨pc, kind, rfl, Merged.refl h hs hk⟩
      · rw [if_neg hbig, hl, Option.bind_some]
        have hmerged := hround (by omega)
        have hpos := h.pos hb
        have hheap : Function.update (Function.update pc.heap s (some (joined a b))) t none s =
            some (joined a b) := by
          obtain ⟨c, hc, _⟩ := hmerged.span
          have hst : s ≠ t := by
            rintro rfl
            dsimp only at hc
            rw [Function.update_self] at hc
            cases hc
          rw [Function.update_of_ne hst, Function.update_self]
        obtain ⟨pc', kind', hrun, hrest⟩ := ih hmerged.inv hheap hmerged.hand (by
          rw [hj.count]
          omega)
        exact ⟨pc', kind', hrun, hmerged.trans hheap hrest⟩

/-- A neighbour is a different span, so it does not cover the pages of the first one. -/
theorem Inv.not_covers (h : pc.Inv kind) (hst : s ≠ t) (hs : pc.heap s = some a)
    (hb : pc.heap t = some b) {k : Nat} (hk : a.extent.Covers k) : ¬ b.extent.Covers k := by
  intro hk'
  exact hst (h.tiles.apart s t _ _ k (extents_of_heap hs) (extents_of_heap hb) hk hk')

theorem joins_prev : Joins (fun a => (a.pageId + 2 ^ 64 - 1) % 2 ^ 64) (fun a b =>
    { a with pageId := b.pageId, pageCount := b.pageCount + a.pageCount }) where
  cut := by
    intro pc kind s t a b h hst hs hb hend
    have hpos := h.pos hs
    have hposb := h.pos hb
    have hbounds := h.bounds hs
    have hkey : (a.pageId + 2 ^ 64 - 1) % 2 ^ 64 = a.pageId - 1 := by omega
    have hapart := h.not_covers hst hs hb (k := a.pageId)
      ⟨Nat.le_refl _, Nat.lt_add_of_pos_right hpos⟩
    rw [hkey] at hend
    have hadjacent : a.pageId = b.pageId + b.pageCount := by
      simp only [Extent.IsEnd, Extent.Covers, Span.extent] at hend hapart
      omega
    have hae : a.extent = ⟨b.pageId + b.pageCount, a.pageCount⟩ := by
      rw [← hadjacent]
      rfl
    rw [hae]
    exact (Extent.cut_at hposb hpos).symm
  count := fun _ _ => rfl
  used := fun _ _ => rfl
  freeList := fun _ _ => rfl

theorem joins_next : Joins (fun a => a.pageId + a.pageCount) (fun a b =>
    { a with pageCount := b.pageCount + a.pageCount }) where
  cut := by
    intro pc kind s t a b h hst hs hb hend
    have hpos := h.pos hs
    have hposb := h.pos hb
    have hapart := h.not_covers hst hs hb (k := a.pageId + a.pageCount - 1) (by
      show a.pageId ≤ a.pageId + a.pageCount - 1 ∧
        a.pageId + a.pageCount - 1 < a.pageId + a.pageCount
      omega)
    have hadjacent : b.pageId = a.pageId + a.pageCount := by
      simp only [Extent.IsEnd, Extent.Covers, Span.extent] at hend hapart
      omega
    have hbe : b.extent = ⟨a.pageId + a.pageCount, b.pageCount⟩ := by
      rw [← hadjacent]
      rfl
    have hje : ({ a with pageCount := b.pageCount + a.pageCount } : Span).extent =
        ⟨a.pageId, a.pageCount + b.pageCount⟩ := by
      unfold Span.extent
      rw [Nat.add_comm]
    rw [hbe, hje]
    exact Extent.cut_at hpos hposb
  count := fun _ _ => rfl
  used := fun _ _ => rfl
  freeList := fun _ _ => rfl

/-- `s` has been given back. -/
structure Returned (pc : PageCache) (kind : SpanId → Kind) (pc' : PageCache)
    (kind' : SpanId → Kind) (s : SpanId) (a : Span) : Prop where
  inv : pc'.Inv kind'
  free : kind' s = .free
  others : pc.SameBusy kind pc' kind' s
  clean : pc.Clean kind → a.used = 0 → a.freeList = FreeList.new → pc'.Clean kind'
  settled : pc.Settled kind → pc'.Settled kind'

/-- `returnSpan` takes back a busy span. -/
theorem Inv.returnSpan (h : pc.Inv kind) (hs : pc.heap s = some a) (hk : kind s = .busy) :
    ∃ pc' kind', pc.returnSpan s = some pc' ∧ Returned pc kind pc' kind' s a := by
  have hpos := h.pos hs
  have htaken := h.takeBusy hs hk
  obtain ⟨pc₁, kind₁, hrun₁, hm₁⟩ := htaken.mergeLoop joins_prev maxPageNum hs
    (Function.update_self ..) (by omega)
  obtain ⟨b, hb, hbu, hbl⟩ := hm₁.span
  have hposb := hm₁.inv.pos hb
  obtain ⟨pc₂, kind₂, hrun₂, hm₂⟩ := hm₁.inv.mergeLoop joins_next maxPageNum hb
    hm₁.hand (by omega)
  have hm := hm₁.trans hb hm₂
  obtain ⟨c, hc, hcu, hcl⟩ := hm.span
  have hput := hm.inv.putFree hc hm.hand
  refine ⟨_, _, ?_, hput, Function.update_self .., ?_, ?_, ?_⟩
  · rw [PageCache.returnSpan, hs]
    simp only [Option.bind_eq_bind, Option.bind_some, mergePrev, mergeNext, hrun₁, hrun₂, hc]
  · intro t d hts
    dsimp only
    rw [Function.update_of_ne hts]
    constructor
    · rintro ⟨hkt, hd⟩
      obtain ⟨hold, hkold⟩ := hm.kept t d hts hd
      rw [Function.update_of_ne hts] at hkold
      exact ⟨hkold.symm.trans hkt, hold⟩
    · rintro ⟨hkt, hd⟩
      obtain ⟨hnew, hknew⟩ := hm.busy t d hts (by rw [Function.update_of_ne hts, hkt]) hd
      exact ⟨hknew, hnew⟩
  · intro hclean hau hal t d hkt hd
    dsimp only at hd
    by_cases hts : t = s
    · rw [hts, hc] at hd
      obtain rfl := Option.some.inj hd
      exact ⟨hcu.trans hau, hcl.trans hal⟩
    · rw [Function.update_of_ne hts] at hkt
      obtain ⟨hold, hkold⟩ := hm.kept t d hts hd
      rw [Function.update_of_ne hts] at hkold
      exact hclean t d (hkold ▸ hkt) hold
  · intro hsettled t d hd
    dsimp only at hd
    by_cases hts : t = s
    · rw [hts, Function.update_self]
      decide
    · rw [Function.update_of_ne hts]
      obtain ⟨hold, hkold⟩ := hm.kept t d hts hd
      rw [hkold, Function.update_of_ne hts]
      exact hsettled t d hold

end Return

/-! ## Finding a span -/

/-- `objectToSpan` finds the busy span of a page, and finds nothing when there is none. -/
theorem Inv.objectToSpan {pc : PageCache} {kind : SpanId → Kind} (h : pc.Inv kind) (p : Addr) :
    ∃ r, pc.objectToSpan p = some r ∧
      ∀ s, r = some s ↔ kind s = .busy ∧ ∃ a, pc.heap s = some a ∧
        a.extent.Covers (Span.ptrToId p) := by
  unfold PageCache.objectToSpan
  dsimp only
  generalize Span.ptrToId p = page
  obtain ⟨g, hg⟩ : ∃ g, g =
      Nat.findGreatest (fun k => (pc.busySpanMap k).isSome = true) page := ⟨_, rfl⟩
  have hgle : g ≤ page := hg ▸ Nat.findGreatest_le page
  -- the first page of a busy span that covers the page is a key, so it is not above `g`
  have hfirst : ∀ t b, kind t = .busy → pc.heap t = some b → b.extent.Covers page →
      b.pageId ≤ g ∧ (pc.busySpanMap g).isSome = true := by
    intro t b hk hb hcov
    have hkey : (pc.busySpanMap b.pageId).isSome = true := by
      have hentry : pc.busySpanMap b.pageId = some t :=
        (h.busyMap _ t).mpr ((ends_iff hb _ _).mpr ⟨hk, .inl rfl⟩)
      rw [hentry]
      rfl
    have hle : b.pageId ≤ page := hcov.1
    rw [hg]
    exact ⟨Nat.le_findGreatest hle hkey,
      Nat.findGreatest_spec (P := fun k => (pc.busySpanMap k).isSome = true) hle hkey⟩
  rw [← hg]
  cases hval : pc.busySpanMap g with
  | none =>
    refine ⟨none, rfl, fun t => ⟨fun e => (nomatch e), ?_⟩⟩
    rintro ⟨hk, b, hb, hcov⟩
    have := (hfirst t b hk hb hcov).2
    rw [hval] at this
    cases this
  | some s =>
    obtain ⟨e, ⟨hk, he⟩, hend⟩ := (h.busyMap _ _).mp hval
    obtain ⟨a, ha, rfl⟩ := heap_of_extents he
    have hpos := h.pos ha
    have hcovg := hend.covers hpos
    -- a busy span that covers the page covers `g` too
    have hunique : ∀ t b, kind t = .busy → pc.heap t = some b → b.extent.Covers page → t = s := by
      intro t b hkt hb hcov
      have hle := (hfirst t b hkt hb hcov).1
      apply h.tiles.apart t s _ _ g (extents_of_heap hb) he _ hcovg
      exact ⟨hle, Nat.lt_of_le_of_lt hgle hcov.2⟩
    dsimp only
    rw [ha]
    simp only [Option.bind_eq_bind, Option.bind_some]
    by_cases hout : page ≥ a.pageId + a.pageCount
    · rw [if_pos hout]
      refine ⟨none, rfl, fun t => ⟨fun e => (nomatch e), ?_⟩⟩
      rintro ⟨hkt, b, hb, hcov⟩
      have hts := hunique t b hkt hb hcov
      subst hts
      obtain rfl := Option.some.inj (hb.symm.trans ha)
      exact absurd hcov.2 (Nat.not_lt.mpr hout)
    · rw [if_neg hout]
      refine ⟨some s, rfl, fun t => ⟨?_, ?_⟩⟩
      · intro hst
        obtain rfl := Option.some.inj hst
        refine ⟨hk, a, ha, ?_⟩
        have hlo : a.pageId ≤ g := hcovg.1
        exact ⟨Nat.le_trans hlo hgle, Nat.lt_of_not_le hout⟩
      · rintro ⟨hkt, b, hb, hcov⟩
        rw [hunique t b hkt hb hcov]

end PageCache

/-! ## Runs -/

/-- A page cache and the spans that it has handed out and not got back. -/
structure PageRun where
  pages : PageCache
  busy : List SpanId

inductive PageOp
  | fetchSpan (pages : Nat) (system : Option Addr)
  | returnSpan (s : SpanId)
deriving DecidableEq, Repr

namespace PageRun

def init : PageRun where
  pages := PageCache.init
  busy := []

def step (st : PageRun) : PageOp → Option PageRun
  | .fetchSpan pages system =>
    (st.pages.fetchSpan pages system).map fun r =>
      { pages := r.1, busy := r.2.toList ++ st.busy }
  | .returnSpan s =>
    (st.pages.returnSpan s).map fun pages => { pages := pages, busy := st.busy.erase s }

/-- What the callers and the system keep to. -/
def Ok (st : PageRun) : PageOp → Prop
  | .fetchSpan pages system =>
    1 ≤ pages ∧ pages ≤ maxPageNum ∧ ∀ p ∈ system, st.pages.FreshRegion p
  | .returnSpan s => s ∈ st.busy

instance (st : PageRun) (op : PageOp) : Decidable (st.Ok op) := by
  cases op <;> unfold Ok <;> infer_instance

/-- The busy spans are those handed out, and the free spans all others. -/
structure Partition (st : PageRun) : Prop where
  live : ∀ s ∈ st.busy, ∃ a, st.pages.heap s = some a
  nodup : st.busy.Nodup
  apart : ∀ s t a b k, st.pages.heap s = some a → st.pages.heap t = some b →
    a.extent.Covers k → b.extent.Covers k → s = t
  cover : ∀ k, (∃ s a, st.pages.heap s = some a ∧ a.extent.Covers k) ↔ st.pages.Obtained k
  counts : ∀ s a, st.pages.heap s = some a → 1 ≤ a.pageCount ∧ a.pageCount ≤ maxPageNum
  lists : ∀ c s, s ∈ st.pages.spans c ↔
    ∃ a, st.pages.heap s = some a ∧ s ∉ st.busy ∧ a.pageCount = c + 1
  listsNodup : ∀ c, (st.pages.spans c).Nodup
  freeSpanMap : ∀ k s, st.pages.freeSpanMap k = some s ↔
    ∃ a, st.pages.heap s = some a ∧ s ∉ st.busy ∧
      (k = a.pageId ∨ k = a.pageId + a.pageCount - 1)
  busySpanMap : ∀ k s, st.pages.busySpanMap k = some s ↔
    ∃ a, st.pages.heap s = some a ∧ s ∈ st.busy ∧
      (k = a.pageId ∨ k = a.pageId + a.pageCount - 1)
  objectToSpan : ∀ p, ∃ r, st.pages.objectToSpan p = some r ∧
    ∀ s, r = some s ↔ ∃ a, st.pages.heap s = some a ∧ s ∈ st.busy ∧
      a.extent.Covers (Span.ptrToId p)

/-- The invariant with the kinds of the spans. -/
structure Inv (st : PageRun) (kind : SpanId → Kind) : Prop where
  pages : st.pages.Inv kind
  settled : st.pages.Settled kind
  busy : ∀ s, s ∈ st.busy ↔ kind s = .busy ∧ ∃ a, st.pages.heap s = some a
  nodup : st.busy.Nodup

section Inv

variable {st st' : PageRun} {kind : SpanId → Kind} {s : SpanId} {a : Span}

theorem Inv.mem_busy (h : st.Inv kind) (hs : st.pages.heap s = some a) :
    s ∈ st.busy ↔ kind s = .busy := by
  rw [h.busy]
  simp [hs]

theorem Inv.not_mem_busy (h : st.Inv kind) (hs : st.pages.heap s = some a) :
    s ∉ st.busy ↔ kind s = .free := by
  rw [h.mem_busy hs]
  have hhand := h.settled s a hs
  cases hk : kind s with
  | free => simp
  | busy => simp
  | hand => exact absurd hk hhand

theorem Inv.ends_free (h : st.Inv kind) (k : Nat) (s : SpanId) :
    st.pages.ends kind .free s k ↔ ∃ a, st.pages.heap s = some a ∧ s ∉ st.busy ∧
      (k = a.pageId ∨ k = a.pageId + a.pageCount - 1) := by
  constructor
  · rintro ⟨e, ⟨hk, he⟩, hend⟩
    obtain ⟨a, ha, rfl⟩ := PageCache.heap_of_extents he
    exact ⟨a, ha, (h.not_mem_busy ha).mpr hk,
      (PageCache.isEnd_extent (h.pages.pos ha)).mp hend⟩
  · rintro ⟨a, ha, hout, hend⟩
    exact ⟨a.extent, ⟨(h.not_mem_busy ha).mp hout, PageCache.extents_of_heap ha⟩,
      (PageCache.isEnd_extent (h.pages.pos ha)).mpr hend⟩

theorem Inv.ends_busy (h : st.Inv kind) (k : Nat) (s : SpanId) :
    st.pages.ends kind .busy s k ↔ ∃ a, st.pages.heap s = some a ∧ s ∈ st.busy ∧
      (k = a.pageId ∨ k = a.pageId + a.pageCount - 1) := by
  constructor
  · rintro ⟨e, ⟨hk, he⟩, hend⟩
    obtain ⟨a, ha, rfl⟩ := PageCache.heap_of_extents he
    exact ⟨a, ha, (h.mem_busy ha).mpr hk, (PageCache.isEnd_extent (h.pages.pos ha)).mp hend⟩
  · rintro ⟨a, ha, hin, hend⟩
    exact ⟨a.extent, ⟨(h.mem_busy ha).mp hin, PageCache.extents_of_heap ha⟩,
      (PageCache.isEnd_extent (h.pages.pos ha)).mpr hend⟩

theorem Inv.partition (h : st.Inv kind) : st.Partition where
  live := fun s hs => ((h.busy s).mp hs).2
  nodup := h.nodup
  apart := fun s t a b k hs ht => h.pages.tiles.apart s t _ _ k (PageCache.extents_of_heap hs)
    (PageCache.extents_of_heap ht)
  cover := by
    intro k
    rw [← h.pages.tiles.cover k]
    constructor
    · rintro ⟨s, a, ha, hk⟩
      exact ⟨s, _, PageCache.extents_of_heap ha, hk⟩
    · rintro ⟨s, e, he, hk⟩
      obtain ⟨a, ha, rfl⟩ := PageCache.heap_of_extents he
      exact ⟨s, a, ha, hk⟩
  counts := fun s a hs => ⟨h.pages.pos hs, h.pages.count_le hs⟩
  lists := by
    intro c s
    rw [h.pages.listed]
    constructor
    · rintro ⟨e, ⟨hk, he⟩, hlen⟩
      obtain ⟨a, ha, rfl⟩ := PageCache.heap_of_extents he
      exact ⟨a, ha, (h.not_mem_busy ha).mpr hk, hlen⟩
    · rintro ⟨a, ha, hout, hlen⟩
      exact ⟨_, ⟨(h.not_mem_busy ha).mp hout, PageCache.extents_of_heap ha⟩, hlen⟩
  listsNodup := h.pages.nodup
  freeSpanMap := fun k s => (h.pages.freeMap k s).trans (h.ends_free k s)
  busySpanMap := fun k s => (h.pages.busyMap k s).trans (h.ends_busy k s)
  objectToSpan := by
    intro p
    obtain ⟨r, hr, hspec⟩ := h.pages.objectToSpan p
    refine ⟨r, hr, fun s => (hspec s).trans ?_⟩
    constructor
    · rintro ⟨hk, a, ha, hcov⟩
      exact ⟨a, ha, (h.mem_busy ha).mpr hk, hcov⟩
    · rintro ⟨a, ha, hin, hcov⟩
      exact ⟨(h.mem_busy ha).mp hin, a, ha, hcov⟩

theorem init_inv : (init).Inv fun _ => .free where
  pages :=
    { fresh := fun _ _ => rfl
      tiles := by
        have hobtained : PageCache.init.Obtained = fun _ => False := by
          funext k
          simp [PageCache.Obtained, PageCache.init]
        show Tiles (fun _ => none) PageCache.init.Obtained
        rw [hobtained]
        exact Tiles.empty
      count := fun s e he => nomatch he
      region := fun p hp => absurd hp List.not_mem_nil
      nodup := fun c => List.nodup_nil
      listed := fun c s =>
        ⟨fun hs => absurd hs List.not_mem_nil, fun ⟨_, ⟨_, he⟩, _⟩ => (nomatch he)⟩
      freeMap := fun k s => ⟨fun hk => (nomatch hk), fun ⟨_, ⟨_, he⟩, _⟩ => (nomatch he)⟩
      busyMap := fun k s => ⟨fun hk => (nomatch hk), fun ⟨_, ⟨_, he⟩, _⟩ => (nomatch he)⟩ }
  settled := fun t b hb => nomatch hb
  busy := fun s => ⟨fun hs => absurd hs List.not_mem_nil, fun ⟨_, _, ha⟩ => (nomatch ha)⟩
  nodup := List.nodup_nil

/-- A call that is in order is defined, and it keeps the invariant. -/
theorem Inv.step (h : st.Inv kind) {op : PageOp} (hok : st.Ok op) :
    ∃ st' kind', st.step op = some st' ∧ st'.Inv kind' := by
  cases op with
  | fetchSpan pages system =>
    obtain ⟨hpages, hmax, hsystem⟩ := hok
    rcases h.pages.fetchSpan hpages hmax (fun p hp => hsystem p hp) with
      ⟨s, pc', kind', hrun, hf⟩ | ⟨_, hrun⟩
    · refine ⟨{ pages := pc', busy := s :: st.busy }, kind', ?_, hf.inv, hf.settled h.settled,
        ?_, ?_⟩
      · rw [PageRun.step, hrun]
        rfl
      · intro t
        rw [List.mem_cons]
        by_cases hts : t = s
        · obtain ⟨a, ha, _⟩ := hf.span
          subst hts
          simp [hf.busy, ha]
        · rw [h.busy t]
          simp only [hts, false_or]
          constructor
          · rintro ⟨hk, a, ha⟩
            obtain ⟨hk', ha'⟩ := (hf.others t a hts).mpr ⟨hk, ha⟩
            exact ⟨hk', a, ha'⟩
          · rintro ⟨hk, a, ha⟩
            obtain ⟨hk', ha'⟩ := (hf.others t a hts).mp ⟨hk, ha⟩
            exact ⟨hk', a, ha'⟩
      · apply List.nodup_cons.mpr ⟨_, h.nodup⟩
        intro hmem
        obtain ⟨hk, a, ha⟩ := (h.busy s).mp hmem
        exact nomatch (hf.notBusy hk).symm.trans ha
    · exact ⟨st, kind, by rw [PageRun.step, hrun]; rfl, h⟩
  | returnSpan s =>
    obtain ⟨hk, a, ha⟩ := (h.busy s).mp hok
    obtain ⟨pc', kind', hrun, hr⟩ := h.pages.returnSpan ha hk
    refine ⟨{ pages := pc', busy := st.busy.erase s }, kind', ?_, hr.inv, hr.settled h.settled,
      ?_, h.nodup.erase s⟩
    · rw [PageRun.step, hrun]
      rfl
    · intro t
      rw [h.nodup.mem_erase_iff]
      by_cases hts : t = s
      · subst hts
        simp [hr.free]
      · rw [h.busy t]
        simp only [ne_eq, hts, not_false_eq_true, true_and]
        constructor
        · rintro ⟨hk', b, hb⟩
          obtain ⟨hk', hb'⟩ := (hr.others t b hts).mpr ⟨hk', hb⟩
          exact ⟨hk', b, hb'⟩
        · rintro ⟨hk', b, hb⟩
          obtain ⟨hk', hb'⟩ := (hr.others t b hts).mp ⟨hk', hb⟩
          exact ⟨hk', b, hb'⟩

end Inv

/-- After every sequence of calls the spans partition the pages of the system, and the next
call is defined. -/
theorem pages_partition (ops : List PageOp) (st : PageRun)
    (hr : Transition.Run step Ok init ops st) :
    st.Partition ∧ ∀ op, st.Ok op → ∃ st', st.step op = some st' := by
  obtain ⟨kind, h⟩ : ∃ kind, st.Inv kind := by
    apply hr.invariant (I := fun st => ∃ kind, st.Inv kind) _ ⟨_, init_inv⟩
    rintro s op t ⟨kind, hs⟩ hok hst
    obtain ⟨t', kind', ht', hinv⟩ := hs.step hok
    obtain rfl := Option.some.inj (ht'.symm.trans hst)
    exact ⟨kind', hinv⟩
  refine ⟨h.partition, fun op hok => ?_⟩
  obtain ⟨st', _, hst', _⟩ := h.step hok
  exact ⟨st', hst'⟩

/-- A span of one page and one of 128, from two regions next to each other, and the first
one is returned. -/
theorem pages_partition_two : ∃ st, Transition.Run step Ok init
    [.fetchSpan 1 (some 0x100000), .fetchSpan 128 (some 0x180000), .returnSpan 1] st ∧
      st.Partition := by
  obtain ⟨st, hr, _⟩ := Transition.Run.exists_of_exec (p := fun st : PageRun => st.busy = [2])
    (show (Transition.exec step Ok init
      [.fetchSpan 1 (some 0x100000), .fetchSpan 128 (some 0x180000), .returnSpan 1]).map
        (fun st => decide (st.busy = [2])) = some true from by decide)
  exact ⟨st, hr, (pages_partition _ st hr).1⟩

end PageRun

end Pool

end WWRaftKV
