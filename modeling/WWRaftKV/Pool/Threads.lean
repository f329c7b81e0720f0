/-
What the operations of a thread cache do to the places of the blocks.

Each of them leaves the blocks of the other caches where they are.
-/
import WWRaftKV.Pool.Blocks

namespace WWRaftKV

namespace Pool

open CentralCache (SameAt Within at_move_other at_move_source at_move_target inv_move)

/-! ## Thread caches -/

namespace ThreadCache

/-! ### Sizes that a cache manages -/

/-- The size is served from the lists of the cache. -/
def Managed (size : Nat) : Prop := 1 ≤ size ∧ size ≤ maxMemorySize

section Managed

variable {tc' : ThreadCache} {size c : Nat}

/-- `allocate` of a size that the cache does not manage. -/
theorem allocate_unmanaged (tc : ThreadCache) (cc : CentralCache) (system : Option Addr)
    (hsize : ¬ Managed size) :
    ∃ r, tc.allocate cc size system = some (cc, tc, r) ∧ ∀ p, r ≠ .block p := by
  unfold Managed at hsize
  by_cases hzero : size = 0
  · refine ⟨.nullptr, by rw [allocate, if_pos hzero], ?_⟩
    intro p hp
    cases hp
  · refine ⟨.heap, by rw [allocate, if_neg hzero, if_pos (by omega)], ?_⟩
    intro p hp
    cases hp

/-- `allocate` of a managed size fetches if the list is empty, and takes the front. -/
theorem allocate_managed (tc : ThreadCache) (cc : CentralCache) (system : Option Addr)
    (hsize : Managed size) (hc : Size.sizeToIndex (Size.roundUp size) = c) :
    tc.allocate cc size system =
      ((if (tc c).chain.isEmpty then tc.fetchFromCentralCache cc (Size.roundUp size) system
        else some (cc, tc)).bind fun r => (r.2 c).popFront.bind fun q =>
          some (r.1, Function.update r.2 c q.2, .block q.1)) := by
  unfold Managed at hsize
  rw [allocate, if_neg (by omega), if_neg (by omega)]
  dsimp only
  rw [hc]
  split <;> rfl

theorem deallocate_unmanaged (tc : ThreadCache) (cc : CentralCache) (p : Addr)
    (hsize : ¬ Managed size) : tc.deallocate cc p size = some (cc, tc) := by
  unfold Managed at hsize
  by_cases hzero : size = 0
  · rw [deallocate, if_pos hzero]
  · rw [deallocate, if_neg hzero, if_pos (by omega)]

/-- `deallocate` of a managed size pushes, and gives back one limit at twice the limit. -/
theorem deallocate_managed (tc : ThreadCache) (cc : CentralCache) (p : Addr)
    (hsize : Managed size) (hc : Size.sizeToIndex (Size.roundUp size) = c)
    (htc' : tc' = Function.update tc c ((tc c).pushFront p)) :
    tc.deallocate cc p size =
      if tc'.shouldReturn c then tc'.returnToCentralCache cc c (tc' c).maxSize
      else some (cc, tc') := by
  unfold Managed at hsize
  rw [deallocate, if_neg (by omega), if_neg (by omega), hc, htc']

end Managed

/-! ### The steps -/

/-- The free lists of the cache of `thread` hold exactly the blocks that are there. -/
structure Inv (tc : ThreadCache) (cc : CentralCache) (loc : Addr → Place) (thread : Nat) :
    Prop where
  chain : ∀ c, Lists (tc c).chain (cc.At loc c (.cache thread))
  maxSize : ∀ c, 1 ≤ (tc c).maxSize

/-- The central cache between two calls. -/
structure Calm (cc : CentralCache) (kind : SpanId → Kind) (loc : Addr → Place) : Prop where
  inv : cc.Inv kind loc
  inUse : cc.InUseBut none
  still : ∀ c x, ¬ cc.At loc c .moving x

/-- A place that the calls of the cache of `thread` leave alone. -/
def Elsewhere (thread : Nat) (v : Place) : Prop := v ≠ .home ∧ v ≠ .moving ∧ v ≠ .cache thread

section Steps

variable {tc : ThreadCache} {cc : CentralCache} {kind : SpanId → Kind} {loc : Addr → Place}
  {thread c : Nat}

/-! ### Fetching and returning -/

/-- Another cache does not notice. -/
theorem Inv.congr {cc' : CentralCache} {loc' : Addr → Place} (h : tc.Inv cc loc thread)
    (hsame : ∀ c x, cc'.At loc' c (.cache thread) x ↔ cc.At loc c (.cache thread) x) :
    tc.Inv cc' loc' thread where
  chain := fun c => (h.chain c).congr (hsame c)
  maxSize := h.maxSize

/-- `_FetchFromCentralCache` brings a block. -/
theorem Inv.fetchFromCentralCache (h : tc.Inv cc loc thread) (hcc : Calm cc kind loc)
    (hc : c < maxArraySize) {system : Addr} (hsystem : cc.pageCache.FreshRegion system) :
    ∃ cc' kind' loc' tc',
      tc.fetchFromCentralCache cc (Size.indexToSize c) (some system) = some (cc', tc') ∧
      Calm cc' kind' loc' ∧ tc'.Inv cc' loc' thread ∧ (tc' c).chain ≠ [] ∧
      SameAt cc loc cc' loc' (Elsewhere thread) ∧ Within cc cc' := by
  obtain ⟨count, hcount⟩ : ∃ count, count =
      if (tc c).maxSize > maxBlockNum then maxBlockNum else (tc c).maxSize := ⟨_, rfl⟩
  have hone : 1 ≤ count := by
    have hmax := h.maxSize c
    rw [hcount]
    split
    · decide
    · exact hmax
  obtain ⟨cc', kind', loc₁, l, hrun, hinv, huse, hne, hnodup, hmoving, hsame, hwithin⟩ :=
    hcc.inv.fetchRange hcc.inUse hcc.still hc hone hsystem
  have hmem : ∀ x ∈ l, cc'.At loc₁ c .moving x := fun x hx => (hmoving c x).mpr ⟨rfl, hx⟩
  -- the blocks on the way go into the cache
  obtain ⟨loc', hloc'⟩ : ∃ loc', loc' = relocate loc₁ l (.cache thread) := ⟨_, rfl⟩
  have hinv' : cc'.Inv kind' loc' := by
    rw [hloc']
    exact inv_move hinv hmem (by decide) (by simp)
  have hcache : ∀ d x, cc'.At loc' d (.cache thread) x ↔
      cc.At loc d (.cache thread) x ∨ (d = c ∧ x ∈ l) := by
    intro d x
    rw [hloc', at_move_target hinv hmem, hsame (.cache thread) ⟨by simp, by simp⟩ d x]
  have hsame' : SameAt cc loc cc' loc' (Elsewhere thread) := by
    rintro v ⟨hhome, hm, hv⟩ d x
    rw [hloc', at_move_other hmem hm hv, hsame v ⟨hhome, hm⟩ d x]
  refine ⟨cc', kind', loc',
    Function.update tc c ((l.foldl FreeList.pushFront (tc c)).setMaxSize (count + 1)), ?_,
    ⟨hinv', huse, ?_⟩, ⟨?_, ?_⟩, ?_, hsame', hwithin⟩
  · rw [ThreadCache.fetchFromCentralCache, Size.sizeToIndex_indexToSize hc]
    simp only [Option.bind_eq_bind]
    rw [← hcount, hrun]
    rfl
  · intro d x hx
    rw [hloc', at_move_source (by simp)] at hx
    exact hx.2 ((hmoving d x).mp hx.1).2
  · intro d
    by_cases hd : d = c
    · subst hd
      rw [Function.update_self, foldl_pushFront]
      have hold : Lists l.reverse (· ∈ l) :=
        (Lists.mk hnodup fun _ => Iff.rfl : Lists l (· ∈ l)).reverse
      apply (hold.append (h.chain d) _).congr
      · intro x
        rw [hcache, or_comm]
        simp
      · intro x hx hx'
        have hnow := (hsame (.cache thread) ⟨by simp, by simp⟩ d x).mpr hx'
        exact nomatch hnow.2.symm.trans (hmem x hx).2
    · rw [Function.update_of_ne hd]
      apply (h.chain d).congr
      intro x
      rw [hcache]
      simp [hd]
  · intro d
    by_cases hd : d = c
    · rw [hd, Function.update_self]
      exact Nat.le_add_left _ _
    · rw [Function.update_of_ne hd]
      exact h.maxSize d
  · rw [Function.update_self, foldl_pushFront]
    show l.reverse ++ (tc c).chain ≠ []
    simp [hne]

theorem takeLoop_eq {nums : Nat} {l : FreeList} {head : List Addr} (h : nums ≤ l.chain.length) :
    takeLoop nums l head =
      some ({ l with chain := l.chain.drop nums }, (l.chain.take nums).reverse ++ head) := by
  induction nums generalizing l head with
  | zero => rfl
  | succ nums ih =>
    cases hchain : l.chain with
    | nil =>
      rw [hchain] at h
      exact absurd h (Nat.not_succ_le_zero nums)
    | cons x rest =>
      rw [takeLoop, FreeList.popFront, hchain]
      simp only [Option.bind_eq_bind, Option.bind_some]
      rw [hchain, List.length_cons] at h
      rw [ih (l := { l with chain := rest }) (Nat.le_of_succ_le_succ h)]
      simp

/-- `_ReturnToCentralCache` takes blocks off the front of a free list. -/
theorem Inv.returnToCentralCache (h : tc.Inv cc loc thread) (hcc : Calm cc kind loc)
    (hc : c < maxArraySize) (nums : Nat) (hnums : nums ≤ (tc c).chain.length) :
    ∃ cc' kind' loc',
      tc.returnToCentralCache cc c nums = some (cc', Function.update tc c
        { tc c with chain := (tc c).chain.drop nums }) ∧
      Calm cc' kind' loc' ∧
      (∀ d x, cc'.At loc' d (.cache thread) x ↔
        cc.At loc d (.cache thread) x ∧ x ∉ (tc c).chain.take nums) ∧
      SameAt cc loc cc' loc' (Elsewhere thread) ∧ Within cc' cc := by
  obtain ⟨moved, hmoved⟩ : ∃ moved, moved = (tc c).chain.take nums := ⟨_, rfl⟩
  rw [← hmoved]
  have hmem : ∀ x ∈ moved, cc.At loc c (.cache thread) x := by
    intro x hx
    rw [hmoved] at hx
    exact ((h.chain c).mem x).mp (List.mem_of_mem_take hx)
  have hnodup : moved.Nodup := by
    rw [hmoved]
    exact (h.chain c).nodup.sublist (List.take_sublist nums _)
  have hmoving : ∀ d x, cc.At (relocate loc moved .moving) d .moving x ↔
      d = c ∧ x ∈ moved.reverse := by
    intro d x
    rw [at_move_target hcc.inv hmem, List.mem_reverse]
    exact or_iff_right (hcc.still d x)
  have hinv : cc.Inv kind (relocate loc moved .moving) :=
    inv_move hcc.inv hmem (by simp) (by decide)
  obtain ⟨cc', kind', loc', hrun, hinv', huse', hstill, hsame, hwithin⟩ :=
    hinv.returnRange hcc.inUse hc (List.nodup_reverse.mpr hnodup) hmoving
  refine ⟨cc', kind', loc', ?_, ⟨hinv', huse', hstill⟩, ?_, ?_, hwithin⟩
  · rw [ThreadCache.returnToCentralCache, takeLoop_eq hnums]
    simp only [Option.bind_eq_bind, Option.bind_some]
    rw [← hmoved, List.append_nil, hrun]
    rfl
  · intro d x
    rw [hsame (.cache thread) ⟨by simp, by simp⟩ d x, at_move_source (by simp)]
  · rintro v ⟨hhome, hm, hv⟩ d x
    rw [hsame v ⟨hhome, hm⟩ d x, at_move_other hmem hv hm]

/-- The cache after blocks have been taken off the front of a free list. -/
theorem Inv.dropped (h : tc.Inv cc loc thread) (hcc : Calm cc kind loc) {nums : Nat}
    {cc' : CentralCache} {loc' : Addr → Place}
    (hat : ∀ d x, cc'.At loc' d (.cache thread) x ↔
      cc.At loc d (.cache thread) x ∧ x ∉ (tc c).chain.take nums) :
    Inv (Function.update tc c { tc c with chain := (tc c).chain.drop nums }) cc' loc' thread where
  chain := by
    intro d
    by_cases hd : d = c
    · subst hd
      rw [Function.update_self]
      exact (h.chain d).drop nums (hat d)
    · rw [Function.update_of_ne hd]
      apply (h.chain d).congr
      intro x
      rw [hat]
      apply and_iff_left_of_imp
      intro hx hin
      have hx' := ((h.chain c).mem x).mp (List.mem_of_mem_take hin)
      exact hd (hcc.inv.class_unique hx.1 hx'.1)
  maxSize := by
    intro d
    by_cases hd : d = c
    · rw [hd, Function.update_self]
      exact h.maxSize c
    · rw [Function.update_of_ne hd]
      exact h.maxSize d

/-- One block goes from the front of a free list to a caller. -/
theorem Inv.take (h : tc.Inv cc loc thread) (hcc : Calm cc kind loc) {p : Addr}
    {rest : List Addr} (hp : (tc c).chain = p :: rest) :
    Calm cc kind (relocate loc [p] .out) ∧
      Inv (Function.update tc c { tc c with chain := rest }) cc (relocate loc [p] .out) thread ∧
      (∀ d x, cc.At (relocate loc [p] .out) d .out x ↔
        cc.At loc d .out x ∨ (d = c ∧ x = p)) ∧
      ∀ v, v ≠ .out → v ≠ .cache thread → ∀ d x,
        cc.At (relocate loc [p] .out) d v x ↔ cc.At loc d v x := by
  have hmem : cc.At loc c (.cache thread) p := by
    apply ((h.chain c).mem p).mp
    rw [hp]
    exact List.mem_cons_self
  have hlist : ∀ x ∈ [p], cc.At loc c (.cache thread) x := by
    intro x hx
    rw [List.mem_singleton.mp hx]
    exact hmem
  have hother : ∀ v, v ≠ .out → v ≠ .cache thread → ∀ d x,
      cc.At (relocate loc [p] .out) d v x ↔ cc.At loc d v x :=
    fun v hv hv' d x => at_move_other hlist hv' hv
  refine ⟨⟨inv_move hcc.inv hlist (by simp) (by decide), hcc.inUse, ?_⟩, ?_, ?_, hother⟩
  · intro d x
    rw [hother .moving (by decide) (by simp) d x]
    exact hcc.still d x
  · have hat : ∀ d x, cc.At (relocate loc [p] .out) d (.cache thread) x ↔
        cc.At loc d (.cache thread) x ∧ x ∉ (tc c).chain.take 1 := by
      intro d x
      rw [hp]
      exact at_move_source (by simp)
    have hdrop := h.dropped hcc hat
    rw [hp] at hdrop
    exact hdrop
  · intro d x
    rw [at_move_target hcc.inv hlist, List.mem_singleton]

/-- One block comes from a caller to the front of a free list. -/
theorem Inv.give (h : tc.Inv cc loc thread) (hcc : Calm cc kind loc) {p : Addr}
    (hp : cc.At loc c .out p) :
    Calm cc kind (relocate loc [p] (.cache thread)) ∧
      Inv (Function.update tc c ((tc c).pushFront p)) cc (relocate loc [p] (.cache thread))
        thread ∧
      ∀ v, v ≠ .cache thread → ∀ d x, cc.At (relocate loc [p] (.cache thread)) d v x ↔
        cc.At loc d v x ∧ x ≠ p := by
  have hlist : ∀ x ∈ [p], cc.At loc c .out x := by
    intro x hx
    rw [List.mem_singleton.mp hx]
    exact hp
  have hother : ∀ v, v ≠ .cache thread → ∀ d x,
      cc.At (relocate loc [p] (.cache thread)) d v x ↔ cc.At loc d v x ∧ x ≠ p := by
    intro v hv d x
    by_cases hout : v = .out
    · rw [hout, at_move_source (by simp), List.mem_singleton]
    · rw [at_move_other hlist hout hv]
      apply (and_iff_left_of_imp _).symm
      rintro hx rfl
      exact hout (hx.2.symm.trans hp.2)
  have hcache : ∀ d x, cc.At (relocate loc [p] (.cache thread)) d (.cache thread) x ↔
      cc.At loc d (.cache thread) x ∨ (d = c ∧ x = p) := by
    intro d x
    rw [at_move_target hcc.inv hlist, List.mem_singleton]
  refine ⟨⟨inv_move hcc.inv hlist (by decide) (by simp), hcc.inUse, ?_⟩, ⟨?_, ?_⟩, hother⟩
  · intro d x hx
    exact hcc.still d x ((hother .moving (by simp) d x).mp hx).1
  · intro d
    by_cases hd : d = c
    · subst hd
      rw [Function.update_self]
      apply (h.chain d).cons
      · rintro ⟨_, hl⟩
        exact nomatch hp.2.symm.trans hl
      · intro x
        rw [hcache, or_comm]
        simp
    · rw [Function.update_of_ne hd]
      apply (h.chain d).congr
      intro x
      rw [hcache]
      simp [hd]
  · intro d
    by_cases hd : d = c
    · rw [hd, Function.update_self]
      exact h.maxSize c
    · rw [Function.update_of_ne hd]
      exact h.maxSize d

/-- `allocate` hands out a block of the class of the size. -/
theorem Inv.allocate (h : tc.Inv cc loc thread) (hcc : Calm cc kind loc) {size : Nat}
    (hsize : 1 ≤ size) (hmax : size ≤ maxMemorySize) {system : Addr}
    (hsystem : cc.pageCache.FreshRegion system) :
    ∃ cc' kind' loc' tc' p, tc.allocate cc size (some system) = some (cc', tc', .block p) ∧
      Calm cc' kind' loc' ∧ tc'.Inv cc' loc' thread ∧ ¬ (∃ d, cc.At loc d .out p) ∧
      (∀ d x, cc'.At loc' d .out x ↔ cc.At loc d .out x ∨
        (d = Size.sizeToIndex (Size.roundUp size) ∧ x = p)) ∧
      SameAt cc loc cc' loc' (fun v => Elsewhere thread v ∧ v ≠ .out) ∧ Within cc cc' := by
  obtain ⟨hc, hround⟩ := Size.indexToSize_roundUp hsize hmax
  obtain ⟨c, hcdef⟩ : ∃ c, c = Size.sizeToIndex (Size.roundUp size) := ⟨_, rfl⟩
  rw [← hcdef] at hc hround ⊢
  -- a block is there, or it is fetched
  obtain ⟨cc₁, kind₁, loc₁, tc₁, hfetch, hcc₁, htc₁, hne, hsame, hwithin⟩ :
      ∃ cc₁ kind₁ loc₁ tc₁, (if (tc c).chain.isEmpty then
          tc.fetchFromCentralCache cc (Size.roundUp size) (some system)
        else some (cc, tc)) = some (cc₁, tc₁) ∧ Calm cc₁ kind₁ loc₁ ∧ Inv tc₁ cc₁ loc₁ thread ∧
        (tc₁ c).chain ≠ [] ∧ SameAt cc loc cc₁ loc₁ (Elsewhere thread) ∧ Within cc cc₁ := by
    by_cases hempty : (tc c).chain.isEmpty = true
    · obtain ⟨cc₁, kind₁, loc₁, tc₁, hrun, hrest⟩ := h.fetchFromCentralCache hcc hc hsystem
      rw [hround] at hrun
      exact ⟨cc₁, kind₁, loc₁, tc₁, by rw [if_pos hempty, hrun], hrest⟩
    · refine ⟨cc, kind, loc, tc, by rw [if_neg hempty], hcc, h, ?_, fun v _ d x => Iff.rfl,
        Within.refl cc⟩
      intro hnil
      rw [hnil] at hempty
      exact hempty rfl
  obtain ⟨p, rest, hp⟩ := List.exists_cons_of_ne_nil hne
  obtain ⟨hcc', htc', hout, hother⟩ := htc₁.take hcc₁ hp
  have hsameOut := hsame .out ⟨by decide, by decide, by simp⟩
  refine ⟨cc₁, kind₁, _, _, p, ?_, hcc', htc', ?_, ?_, ?_, hwithin⟩
  · have hpop : (tc₁ c).popFront = some (p, { tc₁ c with chain := rest }) := by
      rw [FreeList.popFront, hp]
    rw [allocate_managed tc cc _ ⟨hsize, hmax⟩ hcdef.symm, hfetch, Option.bind_some, hpop]
    rfl
  · rintro ⟨d, hd⟩
    have hnow := (hsameOut d p).mpr hd
    have hmem := ((htc₁.chain c).mem p).mp (by rw [hp]; exact List.mem_cons_self)
    cases hnow.2.symm.trans hmem.2
  · intro d x
    rw [hout, hsameOut]
  · rintro v ⟨helse, hv⟩ d x
    rw [hother v hv helse.2.2 d x, hsame v helse d x]

/-- `deallocate` takes a live block back. -/
theorem Inv.deallocate (h : tc.Inv cc loc thread) (hcc : Calm cc kind loc) {size : Nat}
    (hsize : 1 ≤ size) (hmax : size ≤ maxMemorySize) {p : Addr}
    (hp : cc.At loc (Size.sizeToIndex (Size.roundUp size)) .out p) :
    ∃ cc' kind' loc' tc', tc.deallocate cc p size = some (cc', tc') ∧
      Calm cc' kind' loc' ∧ tc'.Inv cc' loc' thread ∧
      (∀ v, Elsewhere thread v → ∀ d x, cc'.At loc' d v x ↔ cc.At loc d v x ∧ x ≠ p) ∧
      Within cc' cc := by
  obtain ⟨hc, _⟩ := Size.indexToSize_roundUp hsize hmax
  obtain ⟨c, hcdef⟩ : ∃ c, c = Size.sizeToIndex (Size.roundUp size) := ⟨_, rfl⟩
  rw [← hcdef] at hc hp
  obtain ⟨hcc₁, htc₁, hother⟩ := h.give hcc hp
  obtain ⟨tc₁, htc₁def⟩ : ∃ tc₁ : ThreadCache, tc₁ = Function.update tc c ((tc c).pushFront p) :=
    ⟨_, rfl⟩
  rw [← htc₁def] at htc₁
  rw [deallocate_managed tc cc p ⟨hsize, hmax⟩ hcdef.symm htc₁def]
  by_cases hreturn : tc₁.shouldReturn c = true
  · rw [if_pos hreturn]
    have hlong : (tc₁ c).maxSize ≤ (tc₁ c).chain.length := by
      have hge : (tc₁ c).chain.length ≥ (tc₁ c).maxSize * 2 := of_decide_eq_true hreturn
      omega
    obtain ⟨cc', kind', loc', hrun', hcc', hat, hsame, hwithin⟩ :=
      htc₁.returnToCentralCache hcc₁ hc _ hlong
    refine ⟨cc', kind', loc', _, hrun', hcc', htc₁.dropped hcc₁ hat, ?_, hwithin⟩
    intro v hv d x
    rw [hsame v hv d x, hother v hv.2.2 d x]
  · rw [if_neg hreturn]
    exact ⟨cc, kind, _, tc₁, rfl, hcc₁, htc₁, fun v hv => hother v hv.2.2, Within.refl cc⟩

/-- The loop of the destructor sends the blocks of all its lists home. -/
theorem Inv.drainLoop {cs : List Nat} (h : tc.Inv cc loc thread) (hcc : Calm cc kind loc)
    (hcs : ∀ c ∈ cs, c < maxArraySize) :
    ∃ cc' kind' loc', drainLoop cs tc cc = some cc' ∧ Calm cc' kind' loc' ∧
      (∀ d x, cc'.At loc' d (.cache thread) x → cc.At loc d (.cache thread) x ∧ d ∉ cs) ∧
      SameAt cc loc cc' loc' (Elsewhere thread) ∧ Within cc' cc := by
  induction cs generalizing tc cc kind loc with
  | nil =>
    exact ⟨cc, kind, loc, rfl, hcc, fun d x hx => ⟨hx, List.not_mem_nil⟩, fun v _ d x => Iff.rfl,
      Within.refl cc⟩
  | cons c cs ih =>
    have hrest : ∀ d ∈ cs, d < maxArraySize := fun d hd => hcs d (List.mem_cons_of_mem _ hd)
    rw [ThreadCache.drainLoop]
    by_cases hempty : (tc c).chain.isEmpty = true
    · rw [if_pos hempty]
      obtain ⟨cc', kind', loc', hrun, hcc', hcache, hsame, hwithin⟩ := ih h hcc hrest
      refine ⟨cc', kind', loc', hrun, hcc', ?_, hsame, hwithin⟩
      intro d x hx
      obtain ⟨hold, hd⟩ := hcache d x hx
      refine ⟨hold, ?_⟩
      rw [List.mem_cons, not_or]
      refine ⟨?_, hd⟩
      rintro rfl
      have hmem := ((h.chain d).mem x).mpr hold
      rw [List.isEmpty_iff.mp hempty] at hmem
      exact absurd hmem List.not_mem_nil
    · rw [if_neg hempty]
      have hc := hcs c List.mem_cons_self
      obtain ⟨cc₁, kind₁, loc₁, hrun₁, hcc₁, hat, hsame₁, hwithin₁⟩ :=
        h.returnToCentralCache hcc hc (tc c).chain.length (Nat.le_refl _)
      have htc₁ := h.dropped hcc hat
      obtain ⟨cc', kind', loc', hrun, hcc', hcache, hsame, hwithin⟩ := ih htc₁ hcc₁ hrest
      refine ⟨cc', kind', loc', ?_, hcc', ?_, ?_, hwithin.trans hwithin₁⟩
      · simp only [Option.bind_eq_bind]
        rw [show (tc c).size = (tc c).chain.length from rfl, hrun₁, Option.bind_some]
        exact hrun
      · intro d x hx
        obtain ⟨hold, hd⟩ := hcache d x hx
        obtain ⟨hold, hout⟩ := (hat d x).mp hold
        refine ⟨hold, ?_⟩
        rw [List.mem_cons, not_or]
        refine ⟨?_, hd⟩
        rintro rfl
        rw [List.take_length] at hout
        exact hout (((h.chain d).mem x).mpr hold)
      · intro v hv d x
        rw [hsame v hv d x, hsame₁ v hv d x]

end Steps

end ThreadCache

end Pool

end WWRaftKV
