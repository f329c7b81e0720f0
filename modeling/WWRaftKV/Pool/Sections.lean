/-
What one step of a thread does to the blocks and the spans.

A step keeps the facts about its own thread, and it spares what the other threads have: the
spans that they have in flight, and the spans of the blocks that they hold.
-/
import WWRaftKV.Pool.Concurrent
import WWRaftKV.Pool.Flight

namespace WWRaftKV

namespace Pool

open CentralCache (AgreeOff Holds Spares agree_setSpan blocksOf at_setSpan at_move_other
  at_move_source)

/-! ## What a thread has -/

/-- The lists that the destructor does not come to any more are empty. -/
def Then.Fits (tc : ThreadCache) : Then → Prop
  | .idle => True
  | .drain rest => (∀ c ∈ rest, c < maxArraySize) ∧
    ∀ c, c < maxArraySize → c ∉ rest → (tc c).chain = []

namespace Task

/-- The span that is in flight. -/
def span : Task → Option SpanId
  | .carve _ s => some s
  | .pushSpan _ s => some s
  | .returnSpan _ s _ _ => some s
  | _ => none

/-- The blocks on the way back to the spans. -/
def inHand : Task → Nat → List Addr
  | .returnRange index objects _, c => if c = index then objects else []
  | .objectToSpan index object rest _, c => if c = index then object :: rest else []
  | .returnObject index object _ rest _, c => if c = index then object :: rest else []
  | .returnSpan index _ rest _, c => if c = index then rest else []
  | _, _ => []

/-- A span as the page cache hands it out. -/
structure Blank (a : Span) (pages : Nat) : Prop where
  count : a.pageCount = pages
  used : a.used = 0
  freeList : a.freeList = FreeList.new

/-- The pages of the span that is fetched for an allocation. -/
def pagesOf (size : Nat) : Nat := CentralCache.pageCountFor (Size.roundUp size)

/-- What a thread knows where it is. -/
def Fits (cc : CentralCache) (tc : ThreadCache) : Task → Prop
  | .idle => True
  | .fetchRange size => ThreadCache.Managed size
  | .fetchSpan size => ThreadCache.Managed size
  | .carve size s => ThreadCache.Managed size ∧
    ∃ a, cc.pageCache.heap s = some a ∧ Blank a (pagesOf size)
  | .pushSpan size s => ThreadCache.Managed size ∧
    ∃ a, cc.pageCache.heap s = some (CentralCache.carve a (Size.roundUp size)) ∧
      Blank a (pagesOf size)
  | .returnRange index _ after => index < maxArraySize ∧ after.Fits tc
  | .objectToSpan index _ _ after => index < maxArraySize ∧ after.Fits tc
  | .returnObject index object span _ after => (index < maxArraySize ∧ after.Fits tc) ∧
    ∃ s a, span = some s ∧ s ∈ cc.spans index ∧ cc.pageCache.heap s = some a ∧
      object ∈ blocksOf a (Size.indexToSize index)
  | .returnSpan index s _ after => (index < maxArraySize ∧ after.Fits tc) ∧
    ∃ a, cc.pageCache.heap s = some a ∧ a.used = 0 ∧ a.freeList = FreeList.new

end Task

namespace Thread

/-- The blocks of the thread are those on its lists and those in its hand. -/
structure Inv (th : Thread) (cc : CentralCache) (loc : Addr → Place) (t : Nat) : Prop where
  chain : ∀ c, Lists ((th.cache c).chain ++ th.task.inHand c) (cc.At loc c (.cache t))
  maxSize : ∀ c, 1 ≤ (th.cache c).maxSize
  fits : th.task.Fits cc th.cache

/-- The places away from the spans and from the thread `t`. -/
def Away (t : Nat) (v : Place) : Prop := v ≠ .home ∧ v ≠ .cache t

/-- Those of the other threads. -/
def Others (t : Nat) (v : Place) : Prop := Away t v ∧ v ≠ .out

theorem away_out (t : Nat) : Away t .out := ⟨by decide, by simp⟩

variable {th : Thread} {cc cc' : CentralCache} {kind kind' : SpanId → Kind}
  {loc loc' : Addr → Place} {fly : SpanId → Prop} {s₀ : Option SpanId} {V : Place → Prop}
  {t c : Nat} {s : SpanId} {a : Span}

/-- A block in the hand of the thread. -/
theorem Inv.hand (h : th.Inv cc loc t) {x : Addr} (hx : x ∈ th.task.inHand c) :
    cc.At loc c (.cache t) x := ((h.chain c).mem x).mp (List.mem_append_right _ hx)

theorem mem_hand (index : Nat) (object : Addr) (rest : List Addr) :
    object ∈ if index = index then object :: rest else [] := by
  rw [if_pos rfl]
  exact List.mem_cons_self

theorem maxSize_update {tc : ThreadCache} {l : FreeList} {index : Nat}
    (hmax : ∀ c, 1 ≤ (tc c).maxSize) (hl : l.maxSize = (tc index).maxSize) (c : Nat) :
    1 ≤ (Function.update tc index l c).maxSize := by
  by_cases hc : c = index
  · rw [hc, Function.update_self, hl]
    exact hmax index
  · rw [Function.update_of_ne hc]
    exact hmax c

/-- Blocks go from the front of a list into the hand of the thread. -/
theorem lists_take {tc : ThreadCache} {P : Nat → Addr → Prop}
    (htc : ∀ c, Lists (tc c).chain (P c)) (index nums c : Nat) :
    Lists ((Function.update tc index { tc index with chain := (tc index).chain.drop nums } c).chain
      ++ if c = index then ((tc index).chain.take nums).reverse else []) (P c) := by
  by_cases hc : c = index
  · subst hc
    rw [Function.update_self, if_pos rfl]
    apply (htc c).perm
    have hsplit := List.take_append_drop nums (tc c).chain
    calc (tc c).chain = (tc c).chain.take nums ++ (tc c).chain.drop nums := hsplit.symm
      List.Perm _ ((tc c).chain.drop nums ++ (tc c).chain.take nums) := List.perm_append_comm
      List.Perm _ _ := (List.reverse_perm _).symm.append_left _
  · rw [Function.update_of_ne hc, if_neg hc, List.append_nil]
    exact htc c

/-- A step of another thread. -/
theorem Inv.spared (h : th.Inv cc loc t) (hsp : Spares cc loc fly cc' loc' s₀ V)
    (hV : V (.cache t)) (hspan : ∀ s, th.task.span = some s → fly s ∧ s₀ ≠ some s) :
    th.Inv cc' loc' t where
  chain := fun c => (h.chain c).congr (hsp.same _ hV c)
  maxSize := h.maxSize
  fits := by
    obtain ⟨cache, task⟩ := th
    have hfits := h.fits
    have hheap : ∀ s a, task.span = some s → cc.pageCache.heap s = some a →
        cc'.pageCache.heap s = some a :=
      fun s a hs ha => hsp.flying s a (hspan s hs).2 (hspan s hs).1 ha
    cases task with
    | idle => trivial
    | fetchRange size => exact hfits
    | fetchSpan size => exact hfits
    | carve size s =>
      obtain ⟨hsize, a, ha, hblank⟩ := hfits
      exact ⟨hsize, a, hheap s a rfl ha, hblank⟩
    | pushSpan size s =>
      obtain ⟨hsize, a, ha, hblank⟩ := hfits
      exact ⟨hsize, a, hheap s _ rfl ha, hblank⟩
    | returnRange index objects after => exact hfits
    | objectToSpan index object rest after => exact hfits
    | returnObject index object span rest after =>
      obtain ⟨hindex, s, a, hspan, hs, ha, hx⟩ := hfits
      have hat := h.hand (mem_hand index object rest)
      obtain ⟨hs', a', ha', hext⟩ := hsp.listed index s a object hs ha hx (hat.2.symm ▸ hV)
      exact ⟨hindex, s, a', hspan, hs', ha', blocksOf_congr hext ▸ hx⟩
    | returnSpan index s rest after =>
      obtain ⟨hindex, a, ha, hclean⟩ := hfits
      exact ⟨hindex, a, hheap s a rfl ha, hclean⟩

/-- A task that has no block in hand and knows nothing of the spans. -/
theorem Inv.pause (h : th.Inv cc loc t) {task : Task}
    (hhand : ∀ c, task.inHand c = th.task.inHand c) (hfits : task.Fits cc th.cache) :
    Inv { cache := th.cache, task := task } cc loc t where
  chain := by
    intro c
    show Lists ((th.cache c).chain ++ task.inHand c) _
    rw [hhand c]
    exact h.chain c
  maxSize := h.maxSize
  fits := hfits

/-! ## Turns -/

/-- What a step of the thread `t` does: the span that it had in flight and the one that it has
now, the thread, and the block that it hands out. -/
structure Sound (th : Thread) (cc : CentralCache) (loc : Addr → Place)
    (fly : SpanId → Prop) (t : Nat) (turn : Turn) (kind' : SpanId → Kind)
    (loc' : Addr → Place) : Prop where
  central : turn.centralCache.Holds kind' loc' fun s =>
    (fly s ∧ th.task.span ≠ some s) ∨ ∃ th', turn.thread = some th' ∧ th'.task.span = some s
  fresh : ∀ th' s, turn.thread = some th' → th'.task.span = some s → fly s →
    th.task.span = some s
  spares : ∃ s₀, (∀ s, s₀ = some s → fly s → th.task.span = some s) ∧
    Spares cc loc fly turn.centralCache loc' s₀ (Others t)
  thread : ∀ th', turn.thread = some th' → th'.Inv turn.centralCache loc' t
  ended : turn.thread = none → ∀ c x, ¬ turn.centralCache.At loc' c (.cache t) x
  out : ∀ d x, turn.centralCache.At loc' d .out x ↔
    cc.At loc d .out x ∨ ∃ size, turn.block = some (x, size) ∧ d = Task.listOf size
  block : ∀ p size, turn.block = some (p, size) →
    ThreadCache.Managed size ∧ ∀ d, ¬ cc.At loc d .out p
  inUse : cc.InUseBut none → turn.centralCache.InUseBut none

/-! ### Blocks for the thread -/

section Blocks

variable {L M : Nat → List Addr} {p : Addr} {rest : List Addr}

/-- The first block of the thread `t` on a list is handed out. -/
theorem hand_out (h : cc.Holds kind loc fly) (hL : ∀ c, Lists (L c) (cc.At loc c (.cache t)))
    (hp : L c = p :: rest) (hc : M c = rest) (hother : ∀ d, d ≠ c → M d = L d) :
    cc.Holds kind (relocate loc [p] .out) fly ∧
      (∀ d, Lists (M d) (cc.At (relocate loc [p] .out) d (.cache t))) ∧
      (∀ d, ¬ cc.At loc d .out p) ∧
      (∀ d x, cc.At (relocate loc [p] .out) d .out x ↔
        cc.At loc d .out x ∨ (d = c ∧ x = p)) ∧
      ∀ v, v ≠ .cache t → v ≠ .out → ∀ d x,
        cc.At (relocate loc [p] .out) d v x ↔ cc.At loc d v x := by
  have hpat : cc.At loc c (.cache t) p := by
    apply ((hL c).mem p).mp
    rw [hp]
    exact List.mem_cons_self
  have hmem : ∀ x ∈ [p], cc.At loc c (.cache t) x := by
    intro x hx
    rw [List.mem_singleton.mp hx]
    exact hpat
  have hsource : ∀ d x, cc.At (relocate loc [p] .out) d (.cache t) x ↔
      cc.At loc d (.cache t) x ∧ x ∉ [p] := fun d x => at_move_source (by simp)
  refine ⟨h.move hmem (by simp) (by decide), ?_, ?_, ?_, ?_⟩
  · intro d
    by_cases hd : d = c
    · rw [hd, hc]
      have hlist := hL c
      rw [hp] at hlist
      apply hlist.tail
      intro x
      rw [hsource, List.mem_singleton]
    · rw [hother d hd]
      apply (hL d).congr
      intro x
      rw [hsource, List.mem_singleton]
      apply and_iff_left_of_imp
      rintro hx rfl
      exact hd (h.class_unique hx.1 hpat.1)
  · rintro d ⟨_, hl⟩
    exact nomatch hl.symm.trans hpat.2
  · intro d x
    rw [h.at_target hmem, List.mem_singleton]
  · exact fun v hv hv' d x => at_move_other hmem hv hv'

/-- Blocks that come from a span go before the others of the list. -/
theorem take_in (h : cc.Holds kind loc fly) (hL : ∀ c, Lists (L c) (cc.At loc c (.cache t)))
    {taken : List Addr} (hnodup : taken.Nodup) (hmem : ∀ x ∈ taken, cc.At loc c .home x)
    (hc : M c = taken ++ L c) (hother : ∀ d, d ≠ c → M d = L d) (d : Nat) :
    Lists (M d) (cc.At (relocate loc taken (.cache t)) d (.cache t)) := by
  by_cases hd : d = c
  · subst hd
    rw [hc]
    have hin : Lists taken (· ∈ taken) := ⟨hnodup, fun _ => Iff.rfl⟩
    apply (hin.append (hL d) _).congr
    · intro x
      rw [h.at_target hmem, or_comm]
      simp
    · intro x hx hx'
      exact nomatch (hmem x hx).2.symm.trans hx'.2
  · rw [hother d hd]
    apply (hL d).congr
    intro x
    rw [h.at_target hmem]
    simp [hd]

/-- Blocks of a span go into the cache of the thread, and one of them is handed out. -/
theorem takeBlocks_sound (h : cc.Holds kind loc fly) {tc : ThreadCache} {size : Nat}
    (htc : ∀ c, Lists (tc c).chain (cc.At loc c (.cache t))) (hmax : ∀ c, 1 ≤ (tc c).maxSize)
    (hs : s ∈ cc.spans (Task.listOf size)) (ha : cc.pageCache.heap s = some a)
    (hne : a.freeList.chain ≠ []) :
    ∃ cc' loc' tc' p, takeBlocks cc tc size s =
        some { centralCache := cc', thread := some ⟨tc', .idle⟩, block := some (p, size) } ∧
      cc'.Holds kind loc' fly ∧ Inv ⟨tc', .idle⟩ cc' loc' t ∧
      Spares cc loc fly cc' loc' (some s) (Others t) ∧
      (cc.InUseBut (some s) → cc'.InUseBut none) ∧ (∀ d, ¬ cc.At loc d .out p) ∧
      ∀ d x, cc'.At loc' d .out x ↔ cc.At loc d .out x ∨ (d = Task.listOf size ∧ x = p) := by
  obtain ⟨c, hc⟩ : ∃ c, c = Task.listOf size := ⟨_, rfl⟩
  rw [← hc] at hs ⊢
  obtain ⟨count, hcount⟩ : ∃ count, count =
      if (tc c).maxSize > maxBlockNum then maxBlockNum else (tc c).maxSize := ⟨_, rfl⟩
  have hone : 1 ≤ count := by
    have hlist := hmax c
    rw [hcount]
    split
    · decide
    · exact hlist
  obtain ⟨b, taken, hloop, hext, hpos, htaken, hnodup, hmem, hset⟩ :=
    h.fetchLoop hs ha hne hone (v := .cache t) (by simp)
  obtain ⟨p, rest, hp⟩ := List.exists_cons_of_ne_nil htaken
  have hcache := take_in h htc hnodup hmem
    (M := fun d => if d = c then taken ++ (tc c).chain else (tc d).chain) (if_pos rfl)
    fun d hd => if_neg hd
  have hsame : ∀ {v}, v ≠ .home → v ≠ .cache t → ∀ d x,
      cc.At (relocate loc taken (.cache t)) d v x ↔ cc.At loc d v x :=
    fun hv hv' d x => at_move_other hmem hv hv'
  obtain ⟨hholds, hlists, hnew, hout, hrest⟩ := hand_out hset (t := t) (c := c)
    (L := fun d => if d = c then taken ++ (tc c).chain else (tc d).chain)
    (M := fun d => if d = c then rest ++ (tc c).chain else (tc d).chain)
    (fun d => (hcache d).congr fun x => at_setSpan ha hext) (by rw [if_pos rfl, hp]; rfl)
    (if_pos rfl) fun d hd => by rw [if_neg hd, if_neg hd]
  refine ⟨cc.setSpan s b, relocate (relocate loc taken (.cache t)) [p] .out,
    Function.update tc c { chain := rest ++ (tc c).chain, maxSize := count + 1 }, p, ?_,
    hholds, ⟨?_, ?_, trivial⟩, ?_, fun huse => CentralCache.inUseBut_setSpan huse hpos
    fun u hu => (Option.some.inj hu).symm, ?_, ?_⟩
  · unfold takeBlocks
    dsimp only
    rw [← hc, ← hcount, ha]
    simp only [Option.bind_eq_bind, Option.bind_some]
    rw [hloop, Option.bind_some]
    dsimp only
    rw [foldl_pushFront, List.reverse_reverse, hp]
    rfl
  · intro d
    show Lists ((Function.update tc c _ d).chain ++ []) _
    rw [List.append_nil]
    have hlist := hlists d
    by_cases hd : d = c
    · subst hd
      rw [if_pos rfl] at hlist
      rw [Function.update_self]
      exact hlist
    · rw [if_neg hd] at hlist
      rw [Function.update_of_ne hd]
      exact hlist
  · intro d
    show 1 ≤ (Function.update tc c _ d).maxSize
    by_cases hd : d = c
    · rw [hd, Function.update_self]
      exact Nat.le_add_left _ _
    · rw [Function.update_of_ne hd]
      exact hmax d
  · apply CentralCache.spares_setSpan ha hext
    rintro v ⟨⟨hv, hv'⟩, hout'⟩ d x
    rw [← at_setSpan ha hext, hrest v hv' hout', at_setSpan ha hext, hsame hv hv']
  · intro d
    rw [← hsame (by decide) (by simp), ← at_setSpan ha hext]
    exact hnew d
  · intro d x
    rw [hout, at_setSpan ha hext, hsame (by decide) (by simp)]

end Blocks

/-! ### The loop of `returnRange` -/

/-- What a thread is after a step without a span in flight. -/
def Settles (cc : CentralCache) (loc : Addr → Place) (t : Nat) : Option Thread → Prop
  | some th => th.Inv cc loc t ∧ th.task.span = none
  | none => ∀ c x, ¬ cc.At loc c (.cache t) x

/-- The destructor goes on to the next list, or it is done. -/
theorem drain_settles (h : cc.Holds kind loc fly) {rest : List Nat} {tc : ThreadCache}
    (htc : ∀ c, Lists (tc c).chain (cc.At loc c (.cache t))) (hmax : ∀ c, 1 ≤ (tc c).maxSize)
    (hrest : (Then.drain rest).Fits tc) :
    ∃ thread, drain rest tc = some thread ∧ Settles cc loc t thread := by
  induction rest with
  | nil =>
    refine ⟨none, rfl, ?_⟩
    intro c x hx
    obtain ⟨s, a, hs, _⟩ := hx.1
    have hmem := ((htc c).mem x).mpr hx
    rw [hrest.2 c ((h.spans s).range c hs) List.not_mem_nil] at hmem
    exact absurd hmem List.not_mem_nil
  | cons index rest ih =>
    obtain ⟨hrange, hempty⟩ := hrest
    have hindex := hrange index List.mem_cons_self
    have hrange' : ∀ c ∈ rest, c < maxArraySize :=
      fun c hc => hrange c (List.mem_cons_of_mem _ hc)
    rw [drain]
    by_cases hchain : (tc index).chain.isEmpty = true
    · rw [if_pos hchain]
      apply ih
      refine ⟨hrange', fun c hc hout => ?_⟩
      by_cases hcindex : c = index
      · rw [hcindex]
        exact List.isEmpty_iff.mp hchain
      · exact hempty c hc fun hm => (List.mem_cons.mp hm).elim hcindex hout
    · rw [if_neg hchain]
      simp only [Option.bind_eq_bind]
      have hsize : (tc index).size ≤ (tc index).chain.length := Nat.le_refl _
      rw [ThreadCache.takeLoop_eq hsize, Option.bind_some, Size.sizeToIndex_indexToSize hindex,
        List.append_nil]
      refine ⟨_, rfl, ⟨lists_take htc index _, maxSize_update hmax (by rfl), hindex, hrange',
        ?_⟩, rfl⟩
      · intro c hc hout
        show (Function.update tc index _ c).chain = []
        by_cases hcindex : c = index
        · rw [hcindex, Function.update_self]
          exact List.drop_length
        · rw [Function.update_of_ne hcindex]
          exact hempty c hc fun hm => (List.mem_cons.mp hm).elim hcindex hout

/-- The loop looks up the next object, or it is done. -/
theorem returnLoop_settles (h : cc.Holds kind loc fly) {tc : ThreadCache} {index : Nat}
    {objects : List Addr} {after : Then}
    (hL : ∀ c, Lists ((tc c).chain ++ if c = index then objects else [])
      (cc.At loc c (.cache t)))
    (hmax : ∀ c, 1 ≤ (tc c).maxSize) (hindex : index < maxArraySize) (hafter : after.Fits tc) :
    ∃ thread, returnLoop cc tc index objects after =
      some { centralCache := cc, thread := thread, block := none } ∧
        Settles cc loc t thread := by
  cases objects with
  | cons object rest => exact ⟨_, rfl, ⟨hL, hmax, hindex, hafter⟩, rfl⟩
  | nil =>
    have htc : ∀ c, Lists (tc c).chain (cc.At loc c (.cache t)) := by
      intro c
      have hlist := hL c
      rw [ite_self, List.append_nil] at hlist
      exact hlist
    have hresume : ∃ thread, resume tc after = some thread ∧ Settles cc loc t thread := by
      cases after with
      | idle =>
        refine ⟨_, rfl, ⟨fun c => ?_, hmax, trivial⟩, rfl⟩
        rw [show (tc c).chain ++ Task.inHand .idle c = (tc c).chain from List.append_nil _]
        exact htc c
      | drain rest => exact drain_settles h htc hmax hafter
    obtain ⟨thread, hrun, hsettles⟩ := hresume
    refine ⟨thread, ?_, hsettles⟩
    rw [returnLoop, hrun]
    rfl

/-! ### The steps -/

/-- A step that hands out no block. -/
theorem Sound.quiet {thread : Option Thread} {o : Option SpanId}
    (hcentral : cc'.Holds kind' loc' fun s =>
      (fly s ∧ th.task.span ≠ some s) ∨ ∃ th', thread = some th' ∧ th'.task.span = some s)
    (hfresh : ∀ th' s, thread = some th' → th'.task.span = some s → fly s →
      th.task.span = some s)
    (ho : ∀ s, o = some s → fly s → th.task.span = some s)
    (hsp : Spares cc loc fly cc' loc' o (Away t))
    (hthread : ∀ th', thread = some th' → th'.Inv cc' loc' t)
    (hended : thread = none → ∀ c x, ¬ cc'.At loc' c (.cache t) x)
    (huse : cc.InUseBut none → cc'.InUseBut none) :
    Sound th cc loc fly t { centralCache := cc', thread := thread, block := none } kind' loc' where
  central := hcentral
  fresh := hfresh
  spares := ⟨o, ho, hsp.mono fun _ hv => hv.1⟩
  thread := hthread
  ended := hended
  out := fun d x => (hsp.same .out (away_out t) d x).trans
    ⟨.inl, fun hx => hx.elim id fun ⟨_, hb, _⟩ => nomatch hb⟩
  block := fun _ _ hb => nomatch hb
  inUse := huse

/-- A step without a span in flight, before and after. -/
theorem Sound.settles (h : cc'.Holds kind' loc' fly) (hspan : th.task.span = none)
    {thread : Option Thread} {o : Option SpanId} (ho : ∀ s, o = some s → ¬ fly s)
    (hsp : Spares cc loc fly cc' loc' o (Away t)) (hth : Settles cc' loc' t thread)
    (huse : cc.InUseBut none → cc'.InUseBut none) :
    Sound th cc loc fly t { centralCache := cc', thread := thread, block := none } kind'
      loc' := by
  have hnone : ∀ th' s, thread = some th' → th'.task.span ≠ some s := by
    rintro th' s rfl hs
    exact nomatch hth.2.symm.trans hs
  apply Sound.quiet _ _ (fun s hs hfly => absurd hfly (ho s hs)) hsp _ _ huse
  · apply h.congr
    intro s
    constructor
    · rintro (⟨hs, _⟩ | ⟨th', hth', hs⟩)
      · exact hs
      · exact absurd hs (hnone th' s hth')
    · exact fun hs => .inl ⟨hs, by rw [hspan]; simp⟩
  · exact fun th' s hth' hs => absurd hs (hnone th' s hth')
  · rintro th' rfl
    exact hth.1
  · rintro rfl
    exact hth

/-- A step that leaves the spans and the blocks where they are. -/
theorem Sound.still (h : cc.Holds kind loc fly) (hspan : th.task.span = none)
    {thread : Option Thread} (hth : Settles cc loc t thread) :
    Sound th cc loc fly t { centralCache := cc, thread := thread, block := none } kind loc :=
  Sound.settles (o := none) h hspan (fun _ hs => nomatch hs) (Spares.refl cc loc fly none _) hth
    id

variable {tc : ThreadCache} {size index : Nat} {object : Addr} {rest : List Addr} {after : Then}
  {system : Addr}

/-- A step that hands out a block. -/
theorem Sound.taken {fly' : SpanId → Prop} {o : Option SpanId} {p : Addr}
    (hsize : ThreadCache.Managed size) (hcc' : cc'.Holds kind' loc' fly')
    (hfly : ∀ u, fly' u ↔ fly u ∧ th.task.span ≠ some u)
    (ho : ∀ u, o = some u → fly u → th.task.span = some u)
    (hth : Inv { cache := tc, task := .idle } cc' loc' t)
    (hsp : Spares cc loc fly cc' loc' o (Others t))
    (huse : cc.InUseBut none → cc'.InUseBut none) (hnew : ∀ d, ¬ cc.At loc d .out p)
    (hout : ∀ d x, cc'.At loc' d .out x ↔
      cc.At loc d .out x ∨ (d = Task.listOf size ∧ x = p)) :
    Sound th cc loc fly t
      { centralCache := cc'
        thread := some { cache := tc, task := .idle }
        block := some (p, size) } kind' loc' := by
  have hidle : ∀ (th' : Thread) u, some { cache := tc, task := .idle } = some th' →
      th'.task.span ≠ some u := by
    intro th' u hth' hu
    obtain rfl := Option.some.inj hth'
    cases hu
  constructor
  case central =>
    apply hcc'.congr
    intro u
    rw [hfly]
    exact or_iff_left fun ⟨th', hth', hu⟩ => hidle th' u hth' hu
  case fresh => exact fun th' u hth' hu => absurd hu (hidle th' u hth')
  case spares => exact ⟨o, ho, hsp⟩
  case thread =>
    intro th' hth'
    obtain rfl := Option.some.inj hth'
    exact hth
  case ended => exact fun hnone => nomatch hnone
  case out =>
    intro d x
    rw [hout]
    apply or_congr_right
    constructor
    · rintro ⟨rfl, rfl⟩
      exact ⟨size, rfl, rfl⟩
    · rintro ⟨size', hb, rfl⟩
      obtain ⟨rfl, rfl⟩ := Prod.mk.inj (Option.some.inj hb)
      exact ⟨rfl, rfl⟩
  case block =>
    intro q size' hb
    obtain ⟨rfl, rfl⟩ := Prod.mk.inj (Option.some.inj hb)
    exact ⟨hsize, hnew⟩
  case inUse => exact huse

/-- A step that leaves the blocks of the thread as they are, on the span `s`. -/
theorem Sound.carry {fly' : SpanId → Prop} {task task' : Task}
    (hth : Inv { cache := tc, task := task } cc loc t)
    (hholds : cc'.Holds kind' loc' fly')
    (hfly : ∀ u, fly' u ↔ (fly u ∧ task.span ≠ some u) ∨ task'.span = some u)
    (hs : fly s → task.span = some s)
    (hfresh : ∀ u, task'.span = some u → fly u → task.span = some u)
    (hsp : Spares cc loc fly cc' loc' (some s) (· ≠ .home))
    (huse : cc.InUseBut none → cc'.InUseBut none)
    (hhand : ∀ c, task'.inHand c = task.inHand c) (hfits : task'.Fits cc' tc) :
    Sound { cache := tc, task := task } cc loc fly t
      { centralCache := cc', thread := some { cache := tc, task := task' }, block := none }
      kind' loc' := by
  refine Sound.quiet ?_ ?_ ?_ (hsp.mono fun _ hv => hv.1) ?_ ?_ huse
  · apply hholds.congr
    intro u
    rw [hfly]
    apply or_congr_right
    constructor
    · rintro ⟨th', hth', hu⟩
      obtain rfl := Option.some.inj hth'
      exact hu
    · exact fun hu => ⟨_, rfl, hu⟩
  · intro th' u hth'
    obtain rfl := Option.some.inj hth'
    exact hfresh u
  · intro u hu
    obtain rfl := Option.some.inj hu
    exact hs
  · intro th' hth'
    obtain rfl := Option.some.inj hth'
    constructor
    case chain =>
      intro c
      show Lists ((tc c).chain ++ task'.inHand c) _
      rw [hhand c]
      exact (hth.chain c).congr (hsp.same _ (by simp) c)
    case maxSize => exact hth.maxSize
    case fits => exact hfits
  · intro hnone
    cases hnone

/-- The lists of a thread that has no block in hand. -/
theorem Inv.lists (hth : th.Inv cc loc t) (hhand : ∀ c, th.task.inHand c = []) (c : Nat) :
    Lists (th.cache c).chain (cc.At loc c (.cache t)) := by
  have hlist := hth.chain c
  rw [hhand c, List.append_nil] at hlist
  exact hlist

/-- A span with a free block is found, or the page cache is asked. -/
theorem fetchRange_sound (h : cc.Holds kind loc fly)
    (hth : Inv { cache := tc, task := .fetchRange size } cc loc t) :
    ∃ turn kind' loc',
      advance { cache := tc, task := .fetchRange size } cc system = some turn ∧
        Sound { cache := tc, task := .fetchRange size } cc loc fly t turn kind' loc' := by
  have hsize : ThreadCache.Managed size := hth.fits
  unfold advance
  dsimp only
  rcases CentralCache.findFree_spec
    (fun s hs => (h.listed hs).2 : ∀ s ∈ cc.spans (Task.listOf size), _) with
    hrun | ⟨s, a, hs, ha, hne, hrun⟩
  · refine ⟨_, kind, loc, by rw [hrun]; rfl, ?_⟩
    exact Sound.still h rfl ⟨hth.pause (fun _ => rfl) hsize, rfl⟩
  · obtain ⟨cc', loc', tc', p, htake, hcc', hth', hsp, huse, hnew, hout⟩ :=
      takeBlocks_sound h (hth.lists fun _ => rfl) hth.maxSize hs ha hne
    refine ⟨_, kind, loc', by rw [hrun]; exact htake, ?_⟩
    apply Sound.taken hsize hcc' _ _ hth' hsp (fun h' => huse (h'.but s)) hnew hout
    · exact fun u => (and_iff_left fun e => nomatch e).symm
    · exact fun u hu hfly => absurd (Option.some.inj hu ▸ hs) (h.unlisted hfly _)

/-- The page cache hands out a span. -/
theorem fetchSpan_sound (h : cc.Holds kind loc fly)
    (hth : Inv { cache := tc, task := .fetchSpan size } cc loc t)
    (hsystem : cc.pageCache.FreshRegion system) :
    ∃ turn kind' loc',
      advance { cache := tc, task := .fetchSpan size } cc system = some turn ∧
        Sound { cache := tc, task := .fetchSpan size } cc loc fly t turn kind' loc' := by
  have hsize : ThreadCache.Managed size := hth.fits
  obtain ⟨hindex, hround⟩ := Size.indexToSize_roundUp hsize.1 hsize.2
  obtain ⟨hmin, hmax⟩ := Size.indexToSize_bounds hindex
  rw [hround] at hmin hmax
  obtain ⟨hpages, hpagesMax, _⟩ := pageCountFor_bounds hmin hmax
  have hregion : ∀ p, some system = some p → cc.pageCache.FreshRegion p :=
    fun p hp => Option.some.inj hp ▸ hsystem
  rcases h.pages.fetchSpan hpages hpagesMax hregion with ⟨s, pc', kind', hfetch, hf⟩ | ⟨hnone, _⟩
  · obtain ⟨hholds, hnew, hsp, huse⟩ := h.fetched hf (V := (· ≠ .home)) (fun hv => hv rfl)
    obtain ⟨a, ha, hcount, hblank⟩ := hf.span
    obtain ⟨hused, hlist⟩ := hblank h.clean
    have hrun : advance { cache := tc, task := .fetchSpan size } cc system = some
        { centralCache := { cc with pageCache := pc' }
          thread := some { cache := tc, task := .carve size s }
          block := none } := by
      unfold advance
      dsimp only
      rw [hfetch]
      rfl
    refine ⟨_, kind', loc, hrun, ?_⟩
    refine Sound.carry hth hholds ?_ (fun hs => absurd hs hnew) ?_ hsp huse ?_ ?_
    · intro u
      rw [and_iff_left (show Task.span (.fetchSpan size) ≠ some u from fun e => nomatch e)]
      exact or_congr_right ⟨fun e => congrArg some e.symm, fun e => (Option.some.inj e).symm⟩
    · intro u hu hfly
      obtain rfl := Option.some.inj hu
      exact absurd hfly hnew
    · exact fun _ => rfl
    · exact ⟨hsize, a, ha, hcount, hused, hlist⟩
  · cases hnone

/-- The span is cut into blocks. -/
theorem carve_sound (h : cc.Holds kind loc fly)
    (hth : Inv { cache := tc, task := .carve size s } cc loc t) (hs : fly s) :
    ∃ turn kind' loc',
      advance { cache := tc, task := .carve size s } cc system = some turn ∧
        Sound { cache := tc, task := .carve size s } cc loc fly t turn kind' loc' := by
  obtain ⟨hsize, a, ha, hblank⟩ := hth.fits
  obtain ⟨hholds, hsp, huse⟩ := h.setFlying hs ha
    (show (CentralCache.carve a (Size.roundUp size)).extent = a.extent from rfl)
    (V := (· ≠ .home)) (fun hv => hv rfl)
  have hrun : advance { cache := tc, task := .carve size s } cc system = some
      { centralCache := cc.setSpan s (CentralCache.carve a (Size.roundUp size))
        thread := some { cache := tc, task := .pushSpan size s }
        block := none } := by
    unfold advance
    dsimp only
    rw [ha]
    rfl
  refine ⟨_, kind, loc, hrun, ?_⟩
  refine Sound.carry hth hholds ?_ (fun _ => rfl) ?_ hsp huse ?_ ?_
  · intro u
    show fly u ↔ (fly u ∧ some s ≠ some u) ∨ some s = some u
    by_cases hu : some s = some u
    · obtain rfl := Option.some.inj hu
      simp [hs]
    · simp [hu]
  · exact fun u hu _ => hu
  · exact fun _ => rfl
  · exact ⟨hsize, a, Function.update_self .., hblank⟩

/-- The span enters its list, and blocks of it are taken. -/
theorem pushSpan_sound (h : cc.Holds kind loc fly)
    (hth : Inv { cache := tc, task := .pushSpan size s } cc loc t) (hs : fly s) :
    ∃ turn kind' loc',
      advance { cache := tc, task := .pushSpan size s } cc system = some turn ∧
        Sound { cache := tc, task := .pushSpan size s } cc loc fly t turn kind' loc' := by
  obtain ⟨hsize, a, ha, hcount, hused, hlist⟩ := hth.fits
  obtain ⟨hindex, hround⟩ := Size.indexToSize_roundUp hsize.1 hsize.2
  obtain ⟨hmin, hmax⟩ := Size.indexToSize_bounds hindex
  obtain ⟨c, hc⟩ : ∃ c, c = Task.listOf size := ⟨_, rfl⟩
  have hsizeOf : Size.indexToSize c = Size.roundUp size := hc ▸ hround
  have hindex : c < maxArraySize := hc ▸ hindex
  rw [← hsizeOf] at ha
  rw [hround] at hmin hmax
  obtain ⟨_, _, hroom⟩ := pageCountFor_bounds hmin hmax
  have hblocks : blocksOf (CentralCache.carve a (Size.indexToSize c)) (Size.indexToSize c) =
      blocksOf a (Size.indexToSize c) := CentralCache.blocksOf_carve a _
  have hchain : (CentralCache.carve a (Size.indexToSize c)).freeList =
      { FreeList.new with chain := (blocksOf a (Size.indexToSize c)).reverse } :=
    carve_freeList hlist
  -- all the blocks of the span are on its free list
  have hall : Lists (CentralCache.carve a (Size.indexToSize c)).freeList.chain
      (· ∈ blocksOf (CentralCache.carve a (Size.indexToSize c)) (Size.indexToSize c)) := by
    rw [hblocks, hchain]
    constructor
    · exact List.nodup_reverse.mpr (blocksOf_nodup (by omega))
    · exact fun x => List.mem_reverse
  have hne : (CentralCache.carve a (Size.indexToSize c)).freeList.chain ≠ [] := by
    rw [hchain]
    dsimp only
    intro hnil
    have hlen := congrArg List.length hnil
    rw [List.length_reverse, blocksOf_length, hcount, hsizeOf] at hlen
    have hone := Nat.div_pos hroom (by omega : 0 < Size.roundUp size)
    unfold Task.pagesOf at hlen
    rw [hlen] at hone
    exact absurd hone (Nat.lt_irrefl 0)
  obtain ⟨hholds, hsp, huse⟩ :=
    h.enter hs hindex ha hall hused (V := (· ≠ .home)) (fun hv => hv rfl)
  have htc := fun d => (hth.lists (fun _ => rfl) d).congr (hsp.same (.cache t) (by simp) d)
  obtain ⟨cc', loc', tc', p, htake, hcc', hth', hsp', huse', hnew, hout⟩ :=
    takeBlocks_sound hholds htc hth.maxSize (by rw [← hc]; exact (h.mem_enter hs).mpr rfl) ha
      hne
  have hrun : advance { cache := tc, task := .pushSpan size s } cc system =
      takeBlocks (cc.enter c s) tc size s := by
    unfold advance
    dsimp only
    rw [← hc]
    rfl
  refine ⟨_, kind, loc', hrun.trans htake, ?_⟩
  have hspares := (hsp.mono fun _ hv => hv.1.1).trans hsp' fun u hu hfly => ⟨hfly, hu⟩
  apply Sound.taken hsize hcc' _ (fun _ hu _ => hu) hth' hspares fun h' => huse' (huse h')
  · exact fun d hd => hnew d ((hsp.same .out (by decide) d p).mpr hd)
  · intro d x
    rw [hout, hsp.same .out (by decide)]
  · intro u
    apply and_congr_right
    intro _
    constructor
    · exact fun hu e => hu (Option.some.inj e).symm
    · exact fun hu e => hu (congrArg some e.symm)

/-- The loop of `returnRange` starts, or it goes on. -/
theorem returnRange_sound (h : cc.Holds kind loc fly) {objects : List Addr}
    (hth : Inv { cache := tc, task := .returnRange index objects after } cc loc t) :
    ∃ turn kind' loc',
      advance { cache := tc, task := .returnRange index objects after } cc system = some turn ∧
        Sound { cache := tc, task := .returnRange index objects after } cc loc fly t turn kind'
          loc' := by
  obtain ⟨hindex, hafter⟩ := hth.fits
  obtain ⟨thread, hrun, hsettles⟩ := returnLoop_settles h hth.chain hth.maxSize hindex hafter
  exact ⟨_, kind, loc, hrun, Sound.still h rfl hsettles⟩

/-- The page cache finds the span of the object. -/
theorem objectToSpan_sound (h : cc.Holds kind loc fly)
    (hth : Inv { cache := tc, task := .objectToSpan index object rest after } cc loc t) :
    ∃ turn kind' loc',
      advance { cache := tc, task := .objectToSpan index object rest after } cc system =
        some turn ∧
        Sound { cache := tc, task := .objectToSpan index object rest after } cc loc fly t turn
          kind' loc' := by
  obtain ⟨s, a, hs, ha, hx⟩ := (hth.hand (mem_hand index object rest)).1
  have hrun : advance { cache := tc, task := .objectToSpan index object rest after } cc system =
      some
        { centralCache := cc
          thread := some { cache := tc, task := .returnObject index object (some s) rest after }
          block := none } := by
    unfold advance
    dsimp only
    rw [h.objectToSpan hs ha hx]
    rfl
  refine ⟨_, kind, loc, hrun, Sound.still h rfl ⟨hth.pause (fun _ => rfl) ?_, rfl⟩⟩
  exact ⟨hth.fits, s, a, rfl, hs, ha, hx⟩

/-- The page cache takes the span back. -/
theorem returnSpan_sound (h : cc.Holds kind loc fly)
    (hth : Inv { cache := tc, task := .returnSpan index s rest after } cc loc t) (hs : fly s) :
    ∃ turn kind' loc',
      advance { cache := tc, task := .returnSpan index s rest after } cc system = some turn ∧
        Sound { cache := tc, task := .returnSpan index s rest after } cc loc fly t turn kind'
          loc' := by
  obtain ⟨hindex, a, ha, hclean⟩ := hth.fits
  obtain ⟨pc', kind', hreturn, hr⟩ := h.pages.returnSpan ha (h.flying hs).1
  obtain ⟨hholds, hsp, huse⟩ := h.returned hs hr hclean (V := (· ≠ .home)) (fun hv => hv rfl)
  have hrun : advance { cache := tc, task := .returnSpan index s rest after } cc system = some
      { centralCache := { cc with pageCache := pc' }
        thread := some { cache := tc, task := .returnRange index rest after }
        block := none } := by
    unfold advance
    dsimp only
    rw [hreturn]
    rfl
  refine ⟨_, kind', loc, hrun, ?_⟩
  refine Sound.carry hth hholds ?_ (fun _ => rfl) ?_ hsp huse ?_ ?_
  · intro u
    show fly u ∧ u ≠ s ↔ (fly u ∧ some s ≠ some u) ∨ none = some u
    rw [or_iff_left (fun e => nomatch e)]
    apply and_congr_right
    intro _
    exact ⟨fun hu e => hu (Option.some.inj e).symm, fun hu e => hu (congrArg some e.symm)⟩
  · exact fun u hu => nomatch hu
  · exact fun _ => rfl
  · exact hindex

/-- The object is back in its span. -/
theorem hand_back (h : cc.Holds kind loc fly)
    (hth : Inv { cache := tc, task := .returnObject index object (some s) rest after } cc loc t)
    (d : Nat) :
    Lists ((tc d).chain ++ if d = index then rest else [])
      (cc.At (relocate loc [object] .home) d (.cache t)) := by
  have hat : ∀ y, cc.At (relocate loc [object] .home) d (.cache t) y ↔
      cc.At loc d (.cache t) y ∧ y ≠ object :=
    fun y => CentralCache.at_relocate_home (by simp) y
  have hlist := hth.chain d
  change Lists ((tc d).chain ++ if d = index then object :: rest else []) _ at hlist
  by_cases hd : d = index
  · rw [if_pos hd] at hlist ⊢
    have hperm := hlist.perm List.perm_middle
    exact hperm.tail hat
  · rw [if_neg hd] at hlist ⊢
    apply hlist.congr
    intro y
    rw [hat]
    apply and_iff_left_of_imp
    rintro hy rfl
    exact hd (h.class_unique hy.1 (hth.hand (mem_hand index y rest)).1)

/-- The step under the lock of the list, with the span as it has been written. -/
theorem advance_returnObject (tc : ThreadCache) {b : Span} (ha : cc.pageCache.heap s = some a)
    (hb : b = { a with
      freeList := a.freeList.pushFront object
      used := (a.used + 2 ^ 64 - 1) % 2 ^ 64 })
    (index : Nat) (rest : List Addr) (after : Then) (system : Addr) :
    advance { cache := tc, task := .returnObject index object (some s) rest after } cc system =
      if b.used = 0 then do
        let list ← eraseSpan (cc.spans index) s
        let cc := { cc with spans := Function.update cc.spans index list }
        some
          { centralCache := cc.setSpan s { b with freeList := b.freeList.clear }
            thread := some { cache := tc, task := .returnSpan index s rest after }
            block := none }
      else returnLoop (cc.setSpan s b) tc index rest after := by
  unfold advance
  simp only [Option.bind_eq_bind]
  rw [ha, Option.bind_some, hb]

/-- The object goes back to its span, and the span goes if no block of it is away. -/
theorem returnObject_sound (h : cc.Holds kind loc fly) {span : Option SpanId}
    (hth : Inv { cache := tc, task := .returnObject index object span rest after } cc loc t) :
    ∃ turn kind' loc',
      advance { cache := tc, task := .returnObject index object span rest after } cc system =
        some turn ∧
        Sound { cache := tc, task := .returnObject index object span rest after } cc loc fly t turn
          kind' loc' := by
  obtain ⟨⟨hindex, hafter⟩, s, a, rfl, hs, ha, hx⟩ := hth.fits
  have hat := hth.hand (mem_hand index object rest)
  have haway : loc object ≠ .home := by
    rw [hat.2]
    simp
  have hpos := h.used_pos hs ha hx haway
  have hbound := h.used_le hs ha
  have hless : (a.used + 2 ^ 64 - 1) % 2 ^ 64 = a.used - 1 := by omega
  obtain ⟨b, hb⟩ : ∃ b : Span, b = { a with
      freeList := a.freeList.pushFront object
      used := (a.used + 2 ^ 64 - 1) % 2 ^ 64 } := ⟨_, rfl⟩
  have hext : b.extent = a.extent := by
    unfold Span.extent
    rw [hb]
  have hset : (cc.setSpan s b).Holds kind (relocate loc [object] .home) fly := by
    apply h.comeHome hs ha hx haway hext
    · rw [hb]
    · rw [hb]
      exact hless
  have hsp : Spares cc loc fly (cc.setSpan s b) (relocate loc [object] .home) (some s)
      (Away t) := by
    apply CentralCache.spares_setSpan ha hext
    rintro v ⟨hv, hv'⟩ d x
    apply at_move_other _ hv' hv
    · exact index
    · intro y hy
      rw [List.mem_singleton.mp hy]
      exact hat
  have hlists : ∀ d, Lists ((tc d).chain ++ if d = index then rest else [])
      ((cc.setSpan s b).At (relocate loc [object] .home) d (.cache t)) :=
    fun d => (hand_back h hth d).congr fun x => at_setSpan ha hext
  have hnew : ¬ fly s := fun hfly => h.unlisted hfly index hs
  have hrun := advance_returnObject tc ha hb index rest after system
  have huseBut : cc.InUseBut none → (cc.setSpan s b).InUseBut (some s) := by
    intro huse
    apply h.inUse_off (agree_setSpan cc kind s b) (huse.but s)
    exact fun _ _ _ _ hne => absurd rfl hne
  rw [hrun]
  by_cases hzero : b.used = 0
  · have hheap : (cc.setSpan s b).pageCache.heap s = some b := Function.update_self ..
    obtain ⟨hholds, hsp', huse'⟩ := hset.leave (b := { b with freeList := b.freeList.clear }) hs
      hheap (hset.all_home hs hheap hzero) rfl (V := (· ≠ .home)) (fun hv => hv rfl)
    have htwice : (cc.setSpan s b).leave index s { b with freeList := b.freeList.clear } =
        cc.leave index s { b with freeList := b.freeList.clear } := by
      unfold CentralCache.leave CentralCache.setSpan
      dsimp only
      rw [Function.update_idem]
    rw [htwice] at hholds hsp' huse'
    refine ⟨
      { centralCache := cc.leave index s { b with freeList := b.freeList.clear }
        thread := some { cache := tc, task := .returnSpan index s rest after }
        block := none }, kind, relocate loc [object] .home, ?_, ?_⟩
    · rw [if_pos hzero, eraseSpan, if_pos hs]
      rfl
    · refine Sound.quiet (o := some s) ?_ ?_ ?_ (hsp.trans (hsp'.mono fun _ hv => hv.1)
        fun _ _ hfly => hfly) ?_ ?_ fun huse => huse' (huseBut huse)
      · apply hholds.congr
        intro u
        constructor
        · rintro (⟨hu, _⟩ | ⟨th', hth', hu⟩)
          · exact .inl hu
          · obtain rfl := Option.some.inj hth'
            exact .inr (Option.some.inj hu).symm
        · rintro (hu | rfl)
          · exact .inl ⟨hu, fun e => nomatch e⟩
          · exact .inr ⟨_, rfl, rfl⟩
      · intro th' u hth' hu hfly
        obtain rfl := Option.some.inj hth'
        obtain rfl := Option.some.inj hu
        exact absurd hfly hnew
      · intro u hu hfly
        obtain rfl := Option.some.inj hu
        exact absurd hfly hnew
      · intro th' hth'
        obtain rfl := Option.some.inj hth'
        constructor
        case chain => exact fun d => (hlists d).congr (hsp'.same (.cache t) (by simp) d)
        case maxSize => exact hth.maxSize
        case fits => exact ⟨⟨hindex, hafter⟩, _, Function.update_self .., hzero, rfl⟩
      · intro hnone
        cases hnone
  · rw [if_neg hzero]
    obtain ⟨thread, hloop, hsettles⟩ := returnLoop_settles hset hlists hth.maxSize hindex hafter
    refine ⟨_, kind, relocate loc [object] .home, hloop,
      Sound.settles hset rfl ?_ hsp hsettles fun huse =>
        CentralCache.inUseBut_setSpan huse (Nat.pos_of_ne_zero hzero) fun _ hu => nomatch hu⟩
    intro u hu hfly
    obtain rfl := Option.some.inj hu
    exact hnew hfly

/-- Every step of a thread is defined. -/
theorem advance_sound (h : cc.Holds kind loc fly) (hth : th.Inv cc loc t)
    (hbusy : th.task ≠ .idle) (hspan : ∀ s, th.task.span = some s → fly s)
    (hsystem : ∀ size, th.task = .fetchSpan size → cc.pageCache.FreshRegion system) :
    ∃ turn kind' loc', th.advance cc system = some turn ∧
      Sound th cc loc fly t turn kind' loc' := by
  obtain ⟨tc, task⟩ := th
  cases task with
  | idle => exact absurd rfl hbusy
  | fetchRange size => exact fetchRange_sound h hth
  | fetchSpan size => exact fetchSpan_sound h hth (hsystem size rfl)
  | carve size s => exact carve_sound h hth (hspan s rfl)
  | pushSpan size s => exact pushSpan_sound h hth (hspan s rfl)
  | returnRange index objects after => exact returnRange_sound h hth
  | objectToSpan index object rest after => exact objectToSpan_sound h hth
  | returnObject index object span rest after => exact returnObject_sound h hth
  | returnSpan index s rest after => exact returnSpan_sound h hth (hspan s rfl)

end Thread

end Pool

end WWRaftKV
