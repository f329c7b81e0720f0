/-
The page cache keeps a partition of its pages.

Every span object has a kind: it is free, it is busy, or it is in the hands of a function
that has taken it out of the maps and not put it back.  The extents of the spans tile the
pages of the system, and the lists and maps follow the kinds.  A function of the cache is
a few steps, each of which takes a span in hand, puts one back, cuts one or joins two.
-/
import WWRaftKV.General.Run
import WWRaftKV.Pool.PageCache

namespace WWRaftKV

namespace Pool

inductive Kind
  | free
  | busy
  | hand
deriving DecidableEq, Repr

/-! ## List edits -/

/-- `l'` is `l` without `s`. -/
def Without (l l' : List SpanId) (s : SpanId) : Prop :=
  (l.Nodup → l'.Nodup) ∧ ∀ t, l.Nodup → (t ∈ l' ↔ t ∈ l ∧ t ≠ s)

theorem without_tail (s : SpanId) (rest : List SpanId) : Without (s :: rest) rest s := by
  constructor
  · exact fun h => (List.nodup_cons.mp h).2
  · intro t h
    have hs := (List.nodup_cons.mp h).1
    constructor
    · intro ht
      exact ⟨List.mem_cons_of_mem _ ht, fun e => hs (e ▸ ht)⟩
    · rintro ⟨ht, hne⟩
      exact (List.mem_cons.mp ht).resolve_left hne

theorem without_erase (l : List SpanId) (s : SpanId) : Without l (l.erase s) s := by
  constructor
  · exact fun h => h.erase s
  · intro t h
    rw [h.mem_erase_iff, and_comm]

namespace PageCache

/-- The extent of every span object. -/
def extents (pc : PageCache) (s : SpanId) : Option Extent := (pc.heap s).map Span.extent

/-- The page has come from the system. -/
def Obtained (pc : PageCache) (k : Nat) : Prop :=
  ∃ p ∈ pc.alignPointers, Span.ptrToId p ≤ k ∧ k < Span.ptrToId p + maxPageNum

/-- What the system may return: an aligned region outside of the earlier ones. -/
structure FreshRegion (pc : PageCache) (p : Nat) : Prop where
  pos : 0 < p
  aligned : p % pageSize = 0
  bound : p + maxPageNum * pageSize ≤ 2 ^ 64
  apart : ∀ q : Nat, q ∈ pc.alignPointers →
    p + maxPageNum * pageSize ≤ q ∨ q + maxPageNum * pageSize ≤ p

instance (pc : PageCache) (p : Nat) : Decidable (pc.FreshRegion p) :=
  decidable_of_iff (0 < p ∧ p % pageSize = 0 ∧ p + maxPageNum * pageSize ≤ 2 ^ 64 ∧
    ∀ q ∈ pc.alignPointers, p + maxPageNum * pageSize ≤ q ∨ q + maxPageNum * pageSize ≤ p)
    ⟨fun h => ⟨h.1, h.2.1, h.2.2.1, h.2.2.2⟩, fun h => ⟨h.pos, h.aligned, h.bound, h.apart⟩⟩

/-- A span of this kind and with this extent. -/
def Has (pc : PageCache) (kind : SpanId → Kind) (κ : Kind) (s : SpanId) (e : Extent) : Prop :=
  kind s = κ ∧ pc.extents s = some e

/-- The pages under which the map of a kind knows a span. -/
def ends (pc : PageCache) (kind : SpanId → Kind) (κ : Kind) (s : SpanId) (k : Nat) : Prop :=
  ∃ e, pc.Has kind κ s e ∧ e.IsEnd k

structure Inv (pc : PageCache) (kind : SpanId → Kind) : Prop where
  fresh : ∀ s : Nat, pc.nextSpan ≤ s → pc.heap s = none
  tiles : Tiles pc.extents pc.Obtained
  count : ∀ s e, pc.extents s = some e → e.len ≤ maxPageNum
  region : ∀ p ∈ pc.alignPointers,
    0 < Span.ptrToId p ∧ Span.ptrToId p + maxPageNum ≤ 2 ^ 52
  nodup : ∀ c, (pc.spans c).Nodup
  listed : ∀ c s, s ∈ pc.spans c ↔ ∃ e, pc.Has kind .free s e ∧ e.len = c + 1
  freeMap : Indexes pc.freeSpanMap (pc.ends kind .free)
  busyMap : Indexes pc.busySpanMap (pc.ends kind .busy)

/-! ## Reading the state -/

section Reading

variable {pc : PageCache} {kind : SpanId → Kind} {s t : SpanId} {a : Span} {e : Extent} {k : Nat}

theorem extents_of_heap (h : pc.heap s = some a) : pc.extents s = some a.extent := by
  rw [extents, h, Option.map_some]

theorem heap_of_extents (h : pc.extents s = some e) : ∃ a, pc.heap s = some a ∧ a.extent = e :=
  Option.map_eq_some_iff.mp h

theorem has_iff (h : pc.heap s = some a) (κ : Kind) (e : Extent) :
    pc.Has kind κ s e ↔ kind s = κ ∧ a.extent = e := by
  rw [Has, extents_of_heap h, Option.some.injEq]

theorem ends_iff (h : pc.heap s = some a) (κ : Kind) (k : Nat) :
    pc.ends kind κ s k ↔ kind s = κ ∧ a.extent.IsEnd k := by
  unfold ends
  simp only [has_iff h, and_assoc]
  simp

theorem Inv.pos (h : pc.Inv kind) (hs : pc.heap s = some a) : 0 < a.pageCount :=
  h.tiles.pos s _ (extents_of_heap hs)

theorem Inv.count_le (h : pc.Inv kind) (hs : pc.heap s = some a) : a.pageCount ≤ maxPageNum :=
  h.count s _ (extents_of_heap hs)

/-- The pages of a span are ordinary page numbers. -/
theorem Inv.bounds (h : pc.Inv kind) (hs : pc.heap s = some a) :
    0 < a.pageId ∧ a.pageId + a.pageCount ≤ 2 ^ 52 := by
  have hpos := h.pos hs
  have hcover : ∀ k, a.extent.Covers k → 0 < k ∧ k < 2 ^ 52 := by
    intro k hk
    obtain ⟨p, hp, hlo, hhi⟩ := (h.tiles.cover k).mp ⟨s, _, extents_of_heap hs, hk⟩
    have := h.region p hp
    omega
  have hfirst := hcover a.pageId (by
    show a.pageId ≤ a.pageId ∧ a.pageId < a.pageId + a.pageCount
    omega)
  have hlast := hcover (a.pageId + a.pageCount - 1) (by
    show a.pageId ≤ a.pageId + a.pageCount - 1 ∧
      a.pageId + a.pageCount - 1 < a.pageId + a.pageCount
    omega)
  omega

theorem isEnd_extent (hpos : 0 < a.pageCount) :
    a.extent.IsEnd k ↔ k = a.pageId ∨ k = a.pageId + a.pageCount - 1 := by
  show k = a.pageId ∨ k + 1 = a.pageId + a.pageCount ↔ _
  omega

end Reading

/-! ## Steps -/

section Steps

variable {pc : PageCache} {kind : SpanId → Kind} {s t : SpanId} {a b : Span} {κ : Kind}

/-! What a change of kind leaves. -/

theorem has_of_ne (hne : t ≠ s) (κ' : Kind) (e : Extent) :
    pc.Has (Function.update kind s κ') κ t e ↔ pc.Has kind κ t e := by
  rw [Has, Has, Function.update_of_ne hne]

theorem has_self {κ' : Kind} (hs : pc.heap s = some a) (e : Extent) :
    pc.Has (Function.update kind s κ') κ s e ↔ κ' = κ ∧ a.extent = e := by
  rw [has_iff hs, Function.update_self]

/-- A kind that the span neither has nor gets. -/
theorem has_other {κ' : Kind} (hold : kind s ≠ κ) (hnew : κ' ≠ κ) (u : SpanId) (e : Extent) :
    pc.Has (Function.update kind s κ') κ u e ↔ pc.Has kind κ u e := by
  by_cases hu : u = s
  · subst hu
    rw [Has, Has, Function.update_self]
    exact ⟨fun h => absurd h.1 hnew, fun h => absurd h.1 hold⟩
  · exact has_of_ne hu κ' e

variable {pc' : PageCache} {kind' : SpanId → Kind}

/-- The spans of the kind are the same. -/
theorem indexes_congr {m : SpanMap} (h : Indexes m (pc.ends kind κ))
    (hsame : ∀ u e, pc'.Has kind' κ u e ↔ pc.Has kind κ u e) :
    Indexes m (pc'.ends kind' κ) := by
  intro k u
  rw [h k u]
  unfold ends
  simp only [hsame]

theorem listed_congr {l : Nat → List SpanId}
    (h : ∀ c s, s ∈ l c ↔ ∃ e, pc.Has kind κ s e ∧ e.len = c + 1)
    (hsame : ∀ u e, pc'.Has kind' κ u e ↔ pc.Has kind κ u e) :
    ∀ c s, s ∈ l c ↔ ∃ e, pc'.Has kind' κ s e ∧ e.len = c + 1 := by
  intro c u
  rw [h c u]
  simp only [hsame]

/-- The span leaves the map of its kind. -/
theorem indexes_eraseEnds {m : SpanMap} (h : Indexes m (pc.ends kind κ)) (hs : pc.heap s = some a)
    (hpos : 0 < a.pageCount) (hk : kind s = κ) {κ' : Kind} (hκ : κ' ≠ κ) :
    Indexes (m.eraseEnds a) (pc.ends (Function.update kind s κ') κ) := by
  apply h.remove (s := s)
  · intro k
    rw [ends_iff hs, isEnd_extent hpos]
    simp [hk]
  · rintro k ⟨e, he, _⟩
    exact hκ ((has_self hs e).mp he).1
  · intro u hu k
    unfold ends
    simp only [has_of_ne hu]

/-- The span enters the map of a kind. -/
theorem indexes_setEnds {m : SpanMap} (htiles : Tiles pc.extents pc.Obtained)
    (h : Indexes m (pc.ends kind κ)) (hs : pc.heap s = some a) (hk : kind s ≠ κ) :
    Indexes (m.setEnds a s) (pc.ends (Function.update kind s κ) κ) := by
  have hpos : 0 < a.pageCount := htiles.pos s _ (extents_of_heap hs)
  have hfree : ∀ u k, a.extent.IsEnd k → ¬ pc.ends kind κ u k := by
    rintro u k hend ⟨e, ⟨hu, he⟩, hend'⟩
    have := htiles.end_unique (extents_of_heap hs) he hend hend'
    exact hk (this ▸ hu)
  apply h.add (s := s)
  · rintro k ⟨e, he, _⟩
    exact hk he.1
  · intro u
    exact ⟨hfree u _ (.inl rfl), hfree u _ ((isEnd_extent hpos).mpr (.inr rfl))⟩
  · intro k
    rw [ends_iff hs, Function.update_self, isEnd_extent hpos]
    simp
  · intro u hu k
    unfold ends
    simp only [has_of_ne hu]

/-! The steps. -/

/-- A free span is taken in hand. -/
theorem Inv.takeFree (h : pc.Inv kind) (hs : pc.heap s = some a) (hk : kind s = .free)
    {l : List SpanId} (hl : Without (pc.spans (a.pageCount - 1)) l s) :
    Inv { pc with
      spans := Function.update pc.spans (a.pageCount - 1) l
      freeSpanMap := pc.freeSpanMap.eraseEnds a } (Function.update kind s .hand) := by
  have hpos := h.pos hs
  constructor
  case fresh => exact h.fresh
  case tiles => exact h.tiles
  case count => exact h.count
  case region => exact h.region
  case nodup =>
    intro c
    by_cases hc : c = a.pageCount - 1
    · subst hc
      dsimp only
      rw [Function.update_self]
      exact hl.1 (h.nodup _)
    · dsimp only
      rw [Function.update_of_ne hc]
      exact h.nodup c
  case listed =>
    intro c t
    dsimp only
    have hmem : t ∈ Function.update pc.spans (a.pageCount - 1) l c ↔ t ∈ pc.spans c ∧ t ≠ s := by
      by_cases hc : c = a.pageCount - 1
      · subst hc
        rw [Function.update_self]
        exact hl.2 t (h.nodup _)
      · rw [Function.update_of_ne hc]
        constructor
        · intro ht
          refine ⟨ht, ?_⟩
          rintro rfl
          obtain ⟨e, he, hlen⟩ := (h.listed c t).mp ht
          obtain ⟨_, rfl⟩ := (has_iff hs _ _).mp he
          have : a.pageCount = c + 1 := hlen
          omega
        · exact And.left
    rw [hmem]
    by_cases ht : t = s
    · subst ht
      constructor
      · exact fun hn => absurd rfl hn.2
      · rintro ⟨e, he, _⟩
        exact nomatch ((has_self hs e).mp he).1
    · rw [h.listed c t]
      constructor
      · rintro ⟨⟨e, he, hlen⟩, _⟩
        exact ⟨e, (has_of_ne ht _ e).mpr he, hlen⟩
      · rintro ⟨e, he, hlen⟩
        exact ⟨⟨e, (has_of_ne ht _ e).mp he, hlen⟩, ht⟩
  case freeMap => exact indexes_eraseEnds h.freeMap hs hpos hk (by decide)
  case busyMap => exact indexes_congr h.busyMap (has_other (by rw [hk]; decide) (by decide))

/-- A span in hand is put among the free ones. -/
theorem Inv.putFree (h : pc.Inv kind) (hs : pc.heap s = some a) (hk : kind s = .hand) :
    Inv { pc with
      spans := pushSpan pc.spans (a.pageCount - 1) s
      freeSpanMap := pc.freeSpanMap.setEnds a s } (Function.update kind s .free) := by
  have hpos := h.pos hs
  have hout : ∀ c, s ∉ pc.spans c := by
    intro c hc
    obtain ⟨e, he, _⟩ := (h.listed c s).mp hc
    rw [he.1] at hk
    cases hk
  constructor
  case fresh => exact h.fresh
  case tiles => exact h.tiles
  case count => exact h.count
  case region => exact h.region
  case nodup =>
    intro c
    by_cases hc : c = a.pageCount - 1
    · subst hc
      dsimp only [pushSpan]
      rw [Function.update_self]
      exact List.nodup_cons.mpr ⟨hout _, h.nodup _⟩
    · dsimp only [pushSpan]
      rw [Function.update_of_ne hc]
      exact h.nodup c
  case listed =>
    intro c t
    dsimp only
    have hmem : t ∈ pushSpan pc.spans (a.pageCount - 1) s c ↔
        (t = s ∧ c = a.pageCount - 1) ∨ t ∈ pc.spans c := by
      unfold pushSpan
      by_cases hc : c = a.pageCount - 1
      · subst hc
        rw [Function.update_self, List.mem_cons]
        simp
      · rw [Function.update_of_ne hc]
        simp [hc]
    rw [hmem]
    by_cases ht : t = s
    · subst ht
      constructor
      · rintro (⟨_, hc⟩ | hc)
        · refine ⟨a.extent, (has_self hs _).mpr ⟨rfl, rfl⟩, ?_⟩
          show a.pageCount = c + 1
          omega
        · exact absurd hc (hout c)
      · rintro ⟨e, he, hlen⟩
        obtain ⟨_, rfl⟩ := (has_self hs e).mp he
        have : a.pageCount = c + 1 := hlen
        exact .inl ⟨rfl, by omega⟩
    · rw [h.listed c t]
      simp only [ht, false_and, false_or]
      constructor
      · rintro ⟨e, he, hlen⟩
        exact ⟨e, (has_of_ne ht _ e).mpr he, hlen⟩
      · rintro ⟨e, he, hlen⟩
        exact ⟨e, (has_of_ne ht _ e).mp he, hlen⟩
  case freeMap => exact indexes_setEnds h.tiles h.freeMap hs (by rw [hk]; decide)
  case busyMap => exact indexes_congr h.busyMap (has_other (by rw [hk]; decide) (by decide))

/-- A busy span is taken in hand. -/
theorem Inv.takeBusy (h : pc.Inv kind) (hs : pc.heap s = some a) (hk : kind s = .busy) :
    Inv { pc with busySpanMap := pc.busySpanMap.eraseEnds a } (Function.update kind s .hand) where
  fresh := h.fresh
  tiles := h.tiles
  count := h.count
  region := h.region
  nodup := h.nodup
  listed := listed_congr h.listed (has_other (by rw [hk]; decide) (by decide))
  freeMap := indexes_congr h.freeMap (has_other (by rw [hk]; decide) (by decide))
  busyMap := indexes_eraseEnds h.busyMap hs (h.pos hs) hk (by decide)

/-- A span in hand becomes busy. -/
theorem Inv.putBusy (h : pc.Inv kind) (hs : pc.heap s = some a) (hk : kind s = .hand) :
    Inv { pc with busySpanMap := pc.busySpanMap.setEnds a s } (Function.update kind s .busy) where
  fresh := h.fresh
  tiles := h.tiles
  count := h.count
  region := h.region
  nodup := h.nodup
  listed := listed_congr h.listed (has_other (by rw [hk]; decide) (by decide))
  freeMap := indexes_congr h.freeMap (has_other (by rw [hk]; decide) (by decide))
  busyMap := indexes_setEnds h.tiles h.busyMap hs (by rw [hk]; decide)

/-! Steps that change spans in hand. -/

theorem map_update (heap : SpanId → Option Span) (s : SpanId) (o : Option Span) :
    (fun u => (Function.update heap s o u).map Span.extent) =
      Function.update (fun u => (heap u).map Span.extent) s (o.map Span.extent) := by
  funext u
  by_cases hu : u = s
  · rw [hu, Function.update_self, Function.update_self]
  · rw [Function.update_of_ne hu, Function.update_of_ne hu]

/-- Only spans in hand differ. -/
theorem has_inHand {S : SpanId → Prop}
    (hout : ∀ u, ¬ S u → kind' u = kind u ∧ pc'.extents u = pc.extents u)
    (hold : ∀ u, S u → kind u = .hand ∨ pc.extents u = none)
    (hnew : ∀ u, S u → kind' u = .hand ∨ pc'.extents u = none) (hκ : κ ≠ .hand) (u : SpanId)
    (e : Extent) : pc'.Has kind' κ u e ↔ pc.Has kind κ u e := by
  by_cases hu : S u
  · constructor
    · rintro ⟨hk, he⟩
      rcases hnew u hu with hh | hn
      · exact absurd (hk.symm.trans hh) hκ
      · exact nomatch hn.symm.trans he
    · rintro ⟨hk, he⟩
      rcases hold u hu with hh | hn
      · exact absurd (hk.symm.trans hh) hκ
      · exact nomatch hn.symm.trans he
  · obtain ⟨hk, he⟩ := hout u hu
    rw [Has, Has, hk, he]

/-- Two spans in hand are joined, and one of the objects is deleted. -/
theorem Inv.join (h : pc.Inv kind) (hs : pc.heap s = some a) (ht : pc.heap t = some b)
    (hks : kind s = .hand) (hkt : kind t = .hand) (hst : s ≠ t) {j : Span}
    (hcut : j.extent.Cut a.extent b.extent) (hcount : j.pageCount ≤ maxPageNum) :
    Inv { pc with heap := Function.update (Function.update pc.heap s (some j)) t none } kind := by
  have hext : extents { pc with
      heap := Function.update (Function.update pc.heap s (some j)) t none } =
      Function.update (Function.update pc.extents s (some j.extent)) t none := by
    unfold extents
    dsimp only
    rw [map_update, map_update]
    rfl
  have htiles := h.tiles.merge (extents_of_heap hs) (extents_of_heap ht) hst hcut
  have hsame : ∀ κ, κ ≠ Kind.hand → ∀ u e, Has { pc with
      heap := Function.update (Function.update pc.heap s (some j)) t none } kind κ u e ↔
      pc.Has kind κ u e := by
    intro κ hκ
    apply has_inHand (S := fun u => u = s ∨ u = t) _ _ _ hκ
    · intro u hu
      rw [hext, Function.update_of_ne fun e => hu (.inr e),
        Function.update_of_ne fun e => hu (.inl e)]
      exact ⟨rfl, rfl⟩
    · rintro u (rfl | rfl)
      · exact .inl hks
      · exact .inl hkt
    · rintro u (rfl | rfl)
      · exact .inl hks
      · exact .inl hkt
  constructor
  case fresh =>
    intro u hu
    have hus : u ≠ s := by
      rintro rfl
      exact nomatch (h.fresh u hu).symm.trans hs
    dsimp only
    by_cases hut : u = t
    · rw [hut, Function.update_self]
    · rw [Function.update_of_ne hut, Function.update_of_ne hus]
      exact h.fresh u hu
  case tiles =>
    rw [hext]
    exact htiles
  case count =>
    intro u e hu
    rw [hext] at hu
    by_cases hut : u = t
    · rw [hut, Function.update_self] at hu
      cases hu
    rw [Function.update_of_ne hut] at hu
    by_cases hus : u = s
    · rw [hus, Function.update_self] at hu
      rw [← Option.some.inj hu]
      exact hcount
    · rw [Function.update_of_ne hus] at hu
      exact h.count u e hu
  case region => exact h.region
  case nodup => exact h.nodup
  case listed => exact listed_congr h.listed (hsame .free (by decide))
  case freeMap => exact indexes_congr h.freeMap (hsame .free (by decide))
  case busyMap => exact indexes_congr h.busyMap (hsame .busy (by decide))

/-- A span in hand is cut, and the back part gets an object of its own. -/
theorem Inv.divide (h : pc.Inv kind) (hs : pc.heap s = some a) (hks : kind s = .hand)
    {front back : Span} (hcut : a.extent.Cut front.extent back.extent) :
    Inv { pc with
      heap := Function.update (Function.update pc.heap s (some front)) pc.nextSpan (some back)
      nextSpan := pc.nextSpan + 1 } (Function.update kind pc.nextSpan .hand) := by
  have hnone : pc.heap pc.nextSpan = none := h.fresh _ (Nat.le_refl _)
  have hnew : pc.extents pc.nextSpan = none := by
    rw [extents, hnone]
    rfl
  have hst : s ≠ pc.nextSpan := by
    rintro rfl
    exact nomatch hnone.symm.trans hs
  have hext : extents { pc with
      heap := Function.update (Function.update pc.heap s (some front)) pc.nextSpan (some back)
      nextSpan := pc.nextSpan + 1 } =
      Function.update (Function.update pc.extents s (some front.extent)) pc.nextSpan
        (some back.extent) := by
    unfold extents
    dsimp only
    rw [map_update, map_update]
    rfl
  have htiles := h.tiles.split (extents_of_heap hs) hnew hcut
  have hsame : ∀ κ, κ ≠ Kind.hand → ∀ u e, Has { pc with
      heap := Function.update (Function.update pc.heap s (some front)) pc.nextSpan (some back)
      nextSpan := pc.nextSpan + 1 } (Function.update kind pc.nextSpan .hand) κ u e ↔
      pc.Has kind κ u e := by
    intro κ hκ
    apply has_inHand (S := fun u => u = s ∨ u = pc.nextSpan) _ _ _ hκ
    · intro u hu
      rw [hext, Function.update_of_ne fun e => hu (.inr e),
        Function.update_of_ne fun e => hu (.inr e), Function.update_of_ne fun e => hu (.inl e)]
      exact ⟨rfl, rfl⟩
    · rintro u (rfl | rfl)
      · exact .inl hks
      · exact .inr hnew
    · rintro u (rfl | rfl)
      · left
        rw [Function.update_of_ne hst, hks]
      · left
        rw [Function.update_self]
  have hlen : front.pageCount ≤ a.pageCount ∧ back.pageCount ≤ a.pageCount := by
    have hpos := hcut.left
    have hpos' := hcut.right
    have hf := (hcut.covers front.pageId).mpr (.inl ⟨Nat.le_refl _, Nat.lt_add_of_pos_right hpos⟩)
    have hf' := (hcut.covers (front.pageId + front.pageCount - 1)).mpr (.inl (by
      show front.pageId ≤ _ ∧ _ < front.pageId + front.pageCount
      have : 0 < front.pageCount := hpos
      omega))
    have hb := (hcut.covers back.pageId).mpr (.inr ⟨Nat.le_refl _, Nat.lt_add_of_pos_right hpos'⟩)
    have hb' := (hcut.covers (back.pageId + back.pageCount - 1)).mpr (.inr (by
      show back.pageId ≤ _ ∧ _ < back.pageId + back.pageCount
      have : 0 < back.pageCount := hpos'
      omega))
    simp only [Extent.Covers, Span.extent] at *
    omega
  constructor
  case fresh =>
    intro u hu
    have hle : pc.nextSpan + 1 ≤ u := hu
    have hun : u ≠ pc.nextSpan := by omega
    have hus : u ≠ s := by
      rintro rfl
      exact nomatch (h.fresh u (by omega)).symm.trans hs
    dsimp only
    rw [Function.update_of_ne hun, Function.update_of_ne hus]
    exact h.fresh u (by omega)
  case tiles =>
    rw [hext]
    exact htiles
  case count =>
    intro u e hu
    have hmax := h.count_le hs
    rw [hext] at hu
    by_cases hut : u = pc.nextSpan
    · rw [hut, Function.update_self] at hu
      rw [← Option.some.inj hu]
      exact Nat.le_trans hlen.2 hmax
    rw [Function.update_of_ne hut] at hu
    by_cases hus : u = s
    · rw [hus, Function.update_self] at hu
      rw [← Option.some.inj hu]
      exact Nat.le_trans hlen.1 hmax
    · rw [Function.update_of_ne hus] at hu
      exact h.count u e hu
  case region => exact h.region
  case nodup => exact h.nodup
  case listed => exact listed_congr h.listed (hsame .free (by decide))
  case freeMap => exact indexes_congr h.freeMap (hsame .free (by decide))
  case busyMap => exact indexes_congr h.busyMap (hsame .busy (by decide))

/-- The system returns a region, and a span in hand holds it. -/
theorem Inv.addRegion (h : pc.Inv kind) {p : Nat} (hp : pc.FreshRegion p) {whole : Span}
    (hwhole : whole.extent = { start := Span.ptrToId p, len := maxPageNum }) :
    Inv { pc with
      heap := Function.update pc.heap pc.nextSpan (some whole)
      nextSpan := pc.nextSpan + 1
      alignPointers := pc.alignPointers ++ [p] } (Function.update kind pc.nextSpan .hand) := by
  have hnew : pc.extents pc.nextSpan = none := by
    rw [extents, h.fresh _ (Nat.le_refl _)]
    rfl
  have hext : extents { pc with
      heap := Function.update pc.heap pc.nextSpan (some whole)
      nextSpan := pc.nextSpan + 1
      alignPointers := pc.alignPointers ++ [p] } =
      Function.update pc.extents pc.nextSpan (some whole.extent) := by
    unfold extents
    dsimp only
    rw [map_update]
    rfl
  have hpage : ∀ q : Nat, Span.ptrToId q = q / 4096 := fun q => Nat.shiftRight_eq_div_pow q 12
  have hobtained : ∀ k, Obtained { pc with
      heap := Function.update pc.heap pc.nextSpan (some whole)
      nextSpan := pc.nextSpan + 1
      alignPointers := pc.alignPointers ++ [p] } k ↔ pc.Obtained k ∨ whole.extent.Covers k := by
    intro k
    rw [hwhole]
    simp only [Obtained, List.mem_append, List.mem_singleton, Extent.Covers]
    constructor
    · rintro ⟨q, hq | rfl, hk⟩
      · exact .inl ⟨q, hq, hk⟩
      · exact .inr hk
    · rintro (⟨q, hq, hk⟩ | hk)
      · exact ⟨q, .inl hq, hk⟩
      · exact ⟨p, .inr rfl, hk⟩
  have hout : ∀ k, whole.extent.Covers k → ¬ pc.Obtained k := by
    rintro k hk ⟨q, hq, hlo, hhi⟩
    rw [hwhole] at hk
    have hapart := hp.apart q hq
    simp only [Extent.Covers, hpage] at hk
    rw [hpage] at hlo hhi
    simp only [maxPageNum, pageSize] at hapart hk hhi
    omega
  have hlen : whole.extent.len = maxPageNum := by rw [hwhole]
  have htiles := h.tiles.add hnew (e := whole.extent) (by rw [hlen]; decide) hout
  have hsame : ∀ κ, κ ≠ Kind.hand → ∀ u e, Has { pc with
      heap := Function.update pc.heap pc.nextSpan (some whole)
      nextSpan := pc.nextSpan + 1
      alignPointers := pc.alignPointers ++ [p] } (Function.update kind pc.nextSpan .hand) κ u e ↔
      pc.Has kind κ u e := by
    intro κ hκ
    apply has_inHand (S := fun u => u = pc.nextSpan) _ _ _ hκ
    · intro u hu
      rw [hext, Function.update_of_ne hu, Function.update_of_ne hu]
      exact ⟨rfl, rfl⟩
    · rintro u rfl
      exact .inr hnew
    · rintro u rfl
      left
      rw [Function.update_self]
  constructor
  case fresh =>
    intro u hu
    have hle : pc.nextSpan + 1 ≤ u := hu
    have hun : u ≠ pc.nextSpan := by omega
    dsimp only
    rw [Function.update_of_ne hun]
    exact h.fresh u (by omega)
  case tiles =>
    rw [hext]
    have hcover : Obtained { pc with
        heap := Function.update pc.heap pc.nextSpan (some whole)
        nextSpan := pc.nextSpan + 1
        alignPointers := pc.alignPointers ++ [p] } =
        fun k => pc.Obtained k ∨ whole.extent.Covers k := funext fun k => propext (hobtained k)
    rw [hcover]
    exact htiles
  case count =>
    intro u e hu
    rw [hext] at hu
    by_cases hut : u = pc.nextSpan
    · rw [hut, Function.update_self] at hu
      rw [← Option.some.inj hu, hlen]
    · rw [Function.update_of_ne hut] at hu
      exact h.count u e hu
  case region =>
    intro q hq
    rcases List.mem_append.mp hq with hq | hq
    · exact h.region q hq
    · rw [List.mem_singleton.mp hq, hpage]
      have hpos := hp.pos
      have haligned := hp.aligned
      have hbound := hp.bound
      simp only [maxPageNum, pageSize] at hpos haligned hbound ⊢
      omega
  case nodup => exact h.nodup
  case listed => exact listed_congr h.listed (hsame .free (by decide))
  case freeMap => exact indexes_congr h.freeMap (hsame .free (by decide))
  case busyMap => exact indexes_congr h.busyMap (hsame .busy (by decide))

/-- The other fields of a span object do not matter. -/
theorem Inv.touch (h : pc.Inv kind) (hs : pc.heap s = some a) (hext : b.extent = a.extent) :
    Inv { pc with heap := Function.update pc.heap s (some b) } kind := by
  have hsame : extents { pc with heap := Function.update pc.heap s (some b) } = pc.extents := by
    unfold extents
    dsimp only
    rw [map_update, Option.map_some, hext]
    apply Function.update_eq_self_iff.mpr
    rw [hs, Option.map_some]
  have hhas : ∀ κ u e, Has { pc with heap := Function.update pc.heap s (some b) } kind κ u e ↔
      pc.Has kind κ u e := by
    intro κ u e
    rw [Has, Has, hsame]
  constructor
  case fresh =>
    intro u hu
    have hus : u ≠ s := by
      rintro rfl
      exact nomatch (h.fresh u hu).symm.trans hs
    dsimp only
    rw [Function.update_of_ne hus]
    exact h.fresh u hu
  case tiles =>
    rw [hsame]
    exact h.tiles
  case count =>
    rw [hsame]
    exact h.count
  case region => exact h.region
  case nodup => exact h.nodup
  case listed => exact listed_congr h.listed (hhas .free)
  case freeMap => exact indexes_congr h.freeMap (hhas .free)
  case busyMap => exact indexes_congr h.busyMap (hhas .busy)

end Steps

end PageCache

end Pool

end WWRaftKV
