/-
The pool under threads that interleave in any way.

Between two steps of any threads the spans in flight are those of the tasks, every block has
one place, and no thread holds a lock that it does not need.  So no step is undefined, the
live blocks do not overlap, and no thread waits for ever.
-/
import WWRaftKV.Pool.Sections

namespace WWRaftKV

namespace Pool

open CentralCache (Holds Spares blocksOf at_move_other at_move_source)

namespace Thread

variable {th : Thread} {cc : CentralCache} {kind : SpanId → Kind} {loc : Addr → Place}
  {fly : SpanId → Prop} {t : Nat}

/-! ## The calls, up to their first lock -/

/-- `allocate` takes a block of the cache, or goes for the list. -/
theorem allocate_sound (h : cc.Holds kind loc fly) (hth : th.Inv cc loc t)
    (hidle : th.task = .idle) (size : Nat) :
    ∃ th' block loc', th.allocate size = some (th', block) ∧
      Sound th cc loc fly t { centralCache := cc, thread := some th', block := block } kind
        loc' := by
  obtain ⟨tc, task⟩ := th
  obtain rfl : task = .idle := hidle
  unfold allocate
  by_cases hzero : size = 0
  · rw [if_pos hzero]
    exact ⟨_, _, loc, rfl, Sound.still h rfl ⟨hth, rfl⟩⟩
  rw [if_neg hzero]
  by_cases hbig : size > maxMemorySize
  · rw [if_pos hbig]
    exact ⟨_, _, loc, rfl, Sound.still h rfl ⟨hth, rfl⟩⟩
  rw [if_neg hbig]
  have hsize : ThreadCache.Managed size := ⟨Nat.pos_of_ne_zero hzero, Nat.le_of_not_lt hbig⟩
  obtain ⟨c, hc⟩ : ∃ c, c = Task.listOf size := ⟨_, rfl⟩
  dsimp only
  rw [← hc]
  by_cases hempty : (tc c).chain.isEmpty = true
  · rw [if_pos hempty]
    exact ⟨_, _, loc, rfl, Sound.still h rfl ⟨hth.pause (fun _ => rfl) hsize, rfl⟩⟩
  · rw [if_neg hempty]
    obtain ⟨p, rest, hp⟩ : ∃ p rest, (tc c).chain = p :: rest := by
      apply List.exists_cons_of_ne_nil
      exact fun hnil => hempty (List.isEmpty_iff.mpr hnil)
    have hother : ∀ d, d ≠ c → (Function.update tc c { tc c with chain := rest } d).chain =
        (tc d).chain := by
      intro d hd
      rw [Function.update_of_ne hd]
    obtain ⟨hholds, hlists, hnew, hout, hsame⟩ := hand_out h
      (L := fun d => (tc d).chain)
      (M := fun d => (Function.update tc c { tc c with chain := rest } d).chain)
      (hth.lists fun _ => rfl) hp (by rw [Function.update_self]) hother
    have hpop : (tc c).popFront = some (p, { tc c with chain := rest }) := by
      rw [FreeList.popFront, hp]
    rw [hpop]
    refine ⟨_, _, _, rfl, Sound.taken (o := none) hsize hholds ?_ ?_ ⟨?_, ?_, trivial⟩ ?_ id hnew
      (hc ▸ hout)⟩
    · intro u
      refine (and_iff_left ?_).symm
      intro hu
      cases hu
    · intro u hu
      cases hu
    · intro d
      show Lists ((Function.update tc c { tc c with chain := rest } d).chain ++ []) _
      rw [List.append_nil]
      exact hlists d
    · exact maxSize_update hth.maxSize (by rfl)
    · exact
        { flying := fun _ _ _ _ ha => ha
          listed := fun _ _ a _ hs ha _ _ => ⟨hs, a, ha, rfl⟩
          same := fun v hv => hsame v hv.1.2 hv.2 }

/-- A live block comes back into the cache, and a part of the list may go back to the spans. -/
theorem deallocate_sound (h : cc.Holds kind loc fly) (hth : th.Inv cc loc t)
    (hidle : th.task = .idle) {p : Addr} {size : Nat} (hsize : ThreadCache.Managed size)
    (hp : cc.At loc (Task.listOf size) .out p) :
    ∃ th' loc', th.deallocate p size = some th' ∧ cc.Holds kind loc' fly ∧ th'.Inv cc loc' t ∧
      th'.task.span = none ∧
      ∀ v, v ≠ .cache t → ∀ d x, cc.At loc' d v x ↔ cc.At loc d v x ∧ x ≠ p := by
  obtain ⟨tc, task⟩ := th
  obtain rfl : task = .idle := hidle
  obtain ⟨hindex, _⟩ := Size.indexToSize_roundUp hsize.1 hsize.2
  unfold deallocate
  rw [if_neg (Nat.ne_of_gt hsize.1), if_neg (Nat.not_lt.mpr hsize.2)]
  obtain ⟨c, hc⟩ : ∃ c, c = Task.listOf size := ⟨_, rfl⟩
  have hindex : c < maxArraySize := hc ▸ hindex
  dsimp only
  rw [← hc] at hp ⊢
  have hmem : ∀ x ∈ [p], cc.At loc c .out x := by
    intro x hx
    rw [List.mem_singleton.mp hx]
    exact hp
  have hholds : cc.Holds kind (relocate loc [p] (.cache t)) fly :=
    h.move hmem (by decide) (by simp)
  have hsame : ∀ v, v ≠ .cache t → ∀ d x,
      cc.At (relocate loc [p] (.cache t)) d v x ↔ cc.At loc d v x ∧ x ≠ p := by
    intro v hv d x
    by_cases hout : v = .out
    · rw [hout, at_move_source (by simp), List.mem_singleton]
    · rw [at_move_other hmem hout hv]
      apply (and_iff_left_of_imp _).symm
      rintro hx rfl
      exact hout (hx.2.symm.trans hp.2)
  obtain ⟨tc₁, htc₁⟩ : ∃ tc₁ : ThreadCache, tc₁ = Function.update tc c ((tc c).pushFront p) :=
    ⟨_, rfl⟩
  rw [← htc₁]
  have hlists : ∀ d, Lists (tc₁ d).chain (cc.At (relocate loc [p] (.cache t)) d (.cache t)) := by
    intro d
    rw [htc₁]
    have hlist := hth.lists (fun _ => rfl) d
    by_cases hd : d = c
    · subst hd
      rw [Function.update_self]
      apply hlist.cons (x := p)
      · exact fun hx => nomatch hp.2.symm.trans hx.2
      · intro x
        rw [h.at_target hmem, or_comm]
        simp
    · rw [Function.update_of_ne hd]
      apply hlist.congr
      intro x
      rw [h.at_target hmem]
      simp [hd]
  have hmax : ∀ d, 1 ≤ (tc₁ d).maxSize := by
    rw [htc₁]
    exact maxSize_update hth.maxSize (by rfl)
  by_cases hreturn : tc₁.shouldReturn c = true
  · have hlong : (tc₁ c).maxSize ≤ (tc₁ c).chain.length := by
      have hge : (tc₁ c).chain.length ≥ (tc₁ c).maxSize * 2 := of_decide_eq_true hreturn
      omega
    rw [if_pos hreturn, ThreadCache.takeLoop_eq hlong, List.append_nil,
      Size.sizeToIndex_indexToSize hindex]
    exact ⟨_, _, rfl, hholds,
      ⟨lists_take hlists c _, maxSize_update hmax (by rfl), hindex, trivial⟩, rfl, hsame⟩
  · rw [if_neg hreturn]
    refine ⟨_, _, rfl, hholds, ⟨?_, hmax, trivial⟩, rfl, hsame⟩
    intro d
    rw [show (tc₁ d).chain ++ Task.inHand .idle d = (tc₁ d).chain from List.append_nil _]
    exact hlists d

end Thread

namespace ConcurrentPool

/-! ## The invariant -/

/-- What the callers, the locks and the system keep to.  A thread calls when it has come back
from its last call, it frees a block that is live, whichever thread has got it, and it takes
a step while it holds the lock for it. -/
def Ok (cp : ConcurrentPool) : PoolEvent → Prop
  | .create thread => (cp.threads thread).isNone
  | .allocate thread _ => ∃ th ∈ cp.threads thread, th.task = .idle
  | .deallocate thread p size =>
    (∃ th ∈ cp.threads thread, th.task = .idle) ∧ (p, size) ∈ cp.live
  | .exit thread => ∃ th ∈ cp.threads thread, th.task = .idle
  | .lock thread => ∃ th ∈ cp.threads thread, ∃ l ∈ th.task.lock, cp.owner l = none
  | .advance thread system => ∃ th ∈ cp.threads thread, th.task ≠ .idle ∧
    (∀ l ∈ th.task.lock, cp.owner l = some thread) ∧
      (th.task.asks = true → cp.centralCache.pageCache.FreshRegion system)

instance (cp : ConcurrentPool) (p : Addr) (size : Nat) : Decidable ((p, size) ∈ cp.live) :=
  decidable_of_iff (∃ e ∈ cp.live, e = (p, size))
    ⟨fun ⟨_, he, heq⟩ => heq ▸ he, fun h => ⟨_, h, rfl⟩⟩

instance (cp : ConcurrentPool) (e : PoolEvent) : Decidable (cp.Ok e) := by
  cases e <;> unfold Ok <;> infer_instance

/-- The span is in flight with a thread. -/
def InFlight (cp : ConcurrentPool) (s : SpanId) : Prop :=
  ∃ t th, cp.threads t = some th ∧ th.task.span = some s

/-- The lock that a thread needs next. -/
def need (threads : Nat → Option Thread) (t : Nat) : Option Lock :=
  (threads t).bind fun th => th.task.lock

structure Inv (cp : ConcurrentPool) (kind : SpanId → Kind) (loc : Addr → Place) : Prop where
  central : cp.centralCache.Holds kind loc cp.InFlight
  inUse : cp.centralCache.InUseBut none
  threads : ∀ t th, cp.threads t = some th → th.Inv cp.centralCache loc t
  alone : ∀ t u th th' s, cp.threads t = some th → cp.threads u = some th' →
    th.task.span = some s → th'.task.span = some s → t = u
  owned : ∀ c t x, cp.centralCache.At loc c (.cache t) x → ∃ th, cp.threads t = some th
  still : ∀ c x, ¬ cp.centralCache.At loc c .moving x
  live : Lists (cp.live.map Prod.fst) fun x => ∃ c, cp.centralCache.At loc c .out x
  sizes : ∀ p size, (p, size) ∈ cp.live →
    ThreadCache.Managed size ∧ cp.centralCache.At loc (Task.listOf size) .out p
  locks : Mutex.OneLock (need cp.threads) cp.owner

variable {cp cp' : ConcurrentPool} {kind : SpanId → Kind} {loc : Addr → Place}

theorem threads_update {threads : Nat → Option Thread} {t u : Nat} {o : Option Thread}
    {th : Thread} (h : Function.update threads t o u = some th) :
    (u = t ∧ o = some th) ∨ (u ≠ t ∧ threads u = some th) := by
  by_cases hut : u = t
  · rw [hut, Function.update_self] at h
    exact .inl ⟨hut, h⟩
  · rw [Function.update_of_ne hut] at h
    exact .inr ⟨hut, h⟩

theorem need_update (threads : Nat → Option Thread) (t : Nat) (th : Option Thread) :
    need (Function.update threads t th) =
      Function.update (need threads) t (th.bind fun th => th.task.lock) := by
  funext u
  unfold need
  by_cases hut : u = t
  · rw [hut, Function.update_self, Function.update_self]
  · rw [Function.update_of_ne hut, Function.update_of_ne hut]

theorem need_eq {t : Nat} {th : Thread} (ht : cp.threads t = some th) :
    need cp.threads t = th.task.lock := by
  rw [need, ht, Option.bind_some]

theorem init_inv : init.Inv (fun _ => .free) (fun _ => .home) where
  central := by
    apply (CentralCache.holds_iff_inv.mpr MemoryPool.init_inv.calm.inv).congr
    intro s
    constructor
    · rintro ⟨_, _, ht, _⟩
      cases ht
    · exact False.elim
  inUse := MemoryPool.init_inv.calm.inUse
  threads := fun _ _ ht => nomatch ht
  alone := fun _ _ _ _ _ ht => nomatch ht
  owned := fun _ _ _ ⟨⟨_, _, hs, _⟩, _⟩ => absurd hs List.not_mem_nil
  still := MemoryPool.init_inv.calm.still
  live := MemoryPool.init_inv.live
  sizes := fun _ _ hp => absurd hp List.not_mem_nil
  locks := fun _ _ hl => nomatch hl

/-! ## The steps -/

/-- A sound step of the thread `t`. -/
theorem Inv.turn (h : cp.Inv kind loc) {t : Nat} {th : Thread} (ht : cp.threads t = some th)
    {turn : Turn} {kind' : SpanId → Kind} {loc' : Addr → Place}
    (hs : th.Sound cp.centralCache loc cp.InFlight t turn kind' loc')
    {owner : Lock → Option Nat}
    (hlocks : Mutex.OneLock (need (Function.update cp.threads t turn.thread)) owner) :
    Inv
      { centralCache := turn.centralCache
        threads := Function.update cp.threads t turn.thread
        owner := owner
        live := turn.block.toList ++ cp.live } kind' loc' := by
  obtain ⟨s₀, hs₀, hsp⟩ := hs.spares
  -- the span of another thread is not that of this step
  have hother : ∀ u th', u ≠ t → cp.threads u = some th' → ∀ s, th'.task.span = some s →
      th.task.span ≠ some s := by
    intro u th' hut hu s hspan hspan'
    exact hut (h.alone u t th' th s hu ht hspan hspan')
  have hcache : ∀ u, u ≠ t → Thread.Others t (.cache u) := by
    intro u hut
    exact ⟨⟨by simp, by simpa using hut⟩, by simp⟩
  constructor
  case central =>
    apply hs.central.congr
    intro s
    constructor
    · rintro ⟨u, th', hu, hspan⟩
      rcases threads_update hu with ⟨rfl, hthread⟩ | ⟨hut, hu⟩
      · exact .inr ⟨th', hthread, hspan⟩
      · exact .inl ⟨⟨u, th', hu, hspan⟩, hother u th' hut hu s hspan⟩
    · rintro (⟨⟨u, th', hu, hspan⟩, hne⟩ | ⟨th', hth', hspan⟩)
      · have hut : u ≠ t := by
          rintro rfl
          obtain rfl := Option.some.inj (ht.symm.trans hu)
          exact hne hspan
        exact ⟨u, th', (Function.update_of_ne hut ..).trans hu, hspan⟩
      · exact ⟨t, th', (Function.update_self ..).trans hth', hspan⟩
  case inUse => exact hs.inUse h.inUse
  case threads =>
    intro u th' hu
    rcases threads_update hu with ⟨rfl, hthread⟩ | ⟨hut, hu⟩
    · exact hs.thread th' hthread
    · apply (h.threads u th' hu).spared hsp (hcache u hut)
      intro s hspan
      refine ⟨⟨u, th', hu, hspan⟩, fun e => ?_⟩
      exact hother u th' hut hu s hspan (hs₀ s e ⟨u, th', hu, hspan⟩)
  case alone =>
    -- a span that is new with this thread was not in flight with another one
    have hnew : ∀ u th₁ th₂ s, u ≠ t → turn.thread = some th₁ → cp.threads u = some th₂ →
        th₁.task.span = some s → th₂.task.span ≠ some s := by
      intro u th₁ th₂ s hut hth₁ hu hspan₁ hspan₂
      exact hother u th₂ hut hu s hspan₂ (hs.fresh th₁ s hth₁ hspan₁ ⟨u, th₂, hu, hspan₂⟩)
    intro u v th₁ th₂ s hu hv hspan₁ hspan₂
    rcases threads_update hu with ⟨hut, hu⟩ | ⟨hut, hu⟩
    · rcases threads_update hv with ⟨hvt, hv⟩ | ⟨hvt, hv⟩
      · rw [hut, hvt]
      · exact absurd hspan₂ (hnew v th₁ th₂ s hvt hu hv hspan₁)
    · rcases threads_update hv with ⟨hvt, hv⟩ | ⟨hvt, hv⟩
      · exact absurd hspan₁ (hnew u th₂ th₁ s hut hv hu hspan₂)
      · exact h.alone u v th₁ th₂ s hu hv hspan₁ hspan₂
  case owned =>
    intro c u x hx
    by_cases hut : u = t
    · subst hut
      cases hthread : turn.thread with
      | none => exact absurd hx (hs.ended hthread c x)
      | some th' => exact ⟨th', Function.update_self ..⟩
    · obtain ⟨th', hu⟩ := h.owned c u x ((hsp.same _ (hcache u hut) c x).mp hx)
      exact ⟨th', (Function.update_of_ne hut ..).trans hu⟩
  case still =>
    intro c x hx
    exact h.still c x ((hsp.same .moving ⟨⟨by decide, by simp⟩, by decide⟩ c x).mp hx)
  case live =>
    cases hblock : turn.block with
    | none =>
      apply h.live.congr
      intro x
      apply exists_congr
      intro c
      rw [hs.out]
      apply or_iff_left
      rintro ⟨size, hb, _⟩
      exact nomatch hblock.symm.trans hb
    | some e =>
      obtain ⟨p, size⟩ := e
      have hnew := (hs.block p size hblock).2
      apply h.live.cons (x := p)
      · exact fun ⟨c, hc⟩ => hnew c hc
      · intro x
        constructor
        · rintro ⟨c, hc⟩
          rcases (hs.out c x).mp hc with hold | ⟨size', hb, _⟩
          · exact .inr ⟨c, hold⟩
          · exact .inl (Prod.mk.inj (Option.some.inj (hblock.symm.trans hb))).1.symm
        · rintro (rfl | ⟨c, hc⟩)
          · exact ⟨_, (hs.out _ x).mpr (.inr ⟨size, hblock, rfl⟩)⟩
          · exact ⟨c, (hs.out c x).mpr (.inl hc)⟩
  case sizes =>
    intro p size hp
    rcases List.mem_append.mp hp with hp | hp
    · have hblock := Option.mem_toList.mp hp
      exact ⟨(hs.block p size hblock).1, (hs.out _ p).mpr (.inr ⟨size, hblock, rfl⟩)⟩
    · obtain ⟨hsize, hat⟩ := h.sizes p size hp
      exact ⟨hsize, (hs.out _ p).mpr (.inl hat)⟩
  case locks => exact hlocks

theorem Inv.create (h : cp.Inv kind loc) {t : Nat} (ht : (cp.threads t).isNone) :
    (cp.setThread t (some { cache := ThreadCache.init, task := .idle })).Inv kind loc := by
  have hnone : cp.threads t = none := Option.isNone_iff_eq_none.mp ht
  have hspan : ∀ {u th s}, (cp.setThread t
      (some { cache := ThreadCache.init, task := .idle })).threads u = some th →
      th.task.span = some s → cp.threads u = some th := by
    intro u th s hu hs
    rcases threads_update hu with ⟨_, hthread⟩ | ⟨_, hu⟩
    · obtain rfl := Option.some.inj hthread
      cases hs
    · exact hu
  constructor
  case central =>
    apply h.central.congr
    intro s
    constructor
    · rintro ⟨u, th, hu, hs⟩
      exact ⟨u, th, hspan hu hs, hs⟩
    · rintro ⟨u, th, hu, hs⟩
      have hut : u ≠ t := by
        rintro rfl
        exact nomatch hnone.symm.trans hu
      exact ⟨u, th, (Function.update_of_ne hut ..).trans hu, hs⟩
  case inUse => exact h.inUse
  case threads =>
    intro u th hu
    rcases threads_update hu with ⟨rfl, hthread⟩ | ⟨_, hu⟩
    · obtain rfl := Option.some.inj hthread
      refine ⟨fun c => Lists.of_false fun x hx => ?_, fun _ => Nat.le_refl 1, trivial⟩
      obtain ⟨th, hth⟩ := h.owned c u x hx
      exact nomatch hnone.symm.trans hth
    · exact h.threads u th hu
  case alone =>
    exact fun u v th th' s hu hv hs hs' => h.alone u v th th' s (hspan hu hs) (hspan hv hs') hs hs'
  case owned =>
    intro c u x hx
    obtain ⟨th, hth⟩ := h.owned c u x hx
    have hut : u ≠ t := by
      rintro rfl
      exact nomatch hnone.symm.trans hth
    exact ⟨th, (Function.update_of_ne hut ..).trans hth⟩
  case still => exact h.still
  case live => exact h.live
  case sizes => exact h.sizes
  case locks =>
    show Mutex.OneLock (need (Function.update cp.threads t _)) cp.owner
    rw [need_update]
    apply h.locks.call
    rw [need, hnone]
    rfl

theorem Inv.deallocate (h : cp.Inv kind loc) {t size : Nat} {p : Addr} {th : Thread}
    (ht : cp.threads t = some th) (hidle : th.task = .idle) (hp : (p, size) ∈ cp.live) :
    ∃ cp' loc', cp.step (.deallocate t p size) = some cp' ∧ cp'.Inv kind loc' := by
  obtain ⟨hsize, hout⟩ := h.sizes p size hp
  obtain ⟨th', loc', hrun, hholds, hth', hspan, hsame⟩ :=
    Thread.deallocate_sound h.central (h.threads t th ht) hidle hsize hout
  have hold : th.task.span = none := by rw [hidle]; rfl
  refine ⟨{ cp.setThread t (some th') with live := cp.live.erase (p, size) }, loc', ?_, ?_⟩
  · rw [ConcurrentPool.step, ht]
    simp only [Option.bind_eq_bind, Option.bind_some]
    rw [hrun]
    rfl
  -- a thread has a span in flight if it had it before
  have hthread : ∀ {u th₁ s}, (cp.setThread t (some th')).threads u = some th₁ →
      th₁.task.span = some s → cp.threads u = some th₁ := by
    intro u th₁ s hu hs
    rcases threads_update hu with ⟨_, hthread⟩ | ⟨_, hu⟩
    · obtain rfl := Option.some.inj hthread
      exact nomatch hspan.symm.trans hs
    · exact hu
  have hpx : ∀ v, v ≠ .out → ∀ d x, cp.centralCache.At loc d v x → x ≠ p := by
    rintro v hv d x hx rfl
    exact hv (hx.2.symm.trans hout.2)
  constructor
  case central =>
    apply hholds.congr
    intro s
    constructor
    · rintro ⟨u, th₁, hu, hs⟩
      exact ⟨u, th₁, hthread hu hs, hs⟩
    · rintro ⟨u, th₁, hu, hs⟩
      have hut : u ≠ t := by
        rintro rfl
        obtain rfl := Option.some.inj (ht.symm.trans hu)
        exact nomatch hold.symm.trans hs
      exact ⟨u, th₁, (Function.update_of_ne hut ..).trans hu, hs⟩
  case inUse => exact h.inUse
  case threads =>
    intro u th₁ hu
    rcases threads_update hu with ⟨rfl, hnew⟩ | ⟨hut, hu⟩
    · obtain rfl := Option.some.inj hnew
      exact hth'
    · have hne : Place.cache u ≠ .cache t := by simpa using hut
      have hsp : CentralCache.Spares cp.centralCache loc cp.InFlight cp.centralCache loc' none
          (· = .cache u) :=
        { flying := fun _ _ _ _ ha => ha
          listed := fun _ _ a _ hs ha _ _ => ⟨hs, a, ha, rfl⟩
          same := by
            rintro v rfl d x
            rw [hsame _ hne]
            exact and_iff_left_of_imp (hpx _ (by simp) d x) }
      exact (h.threads u th₁ hu).spared hsp rfl fun s hs => ⟨⟨u, th₁, hu, hs⟩, fun e => nomatch e⟩
  case alone =>
    exact fun u v th₁ th₂ s hu hv hs hs' =>
      h.alone u v th₁ th₂ s (hthread hu hs) (hthread hv hs') hs hs'
  case owned =>
    intro c u x hx
    by_cases hut : u = t
    · subst hut
      exact ⟨th', Function.update_self ..⟩
    · have hne : Place.cache u ≠ .cache t := by simpa using hut
      obtain ⟨th₁, hu⟩ := h.owned c u x ((hsame _ hne c x).mp hx).1
      exact ⟨th₁, (Function.update_of_ne hut ..).trans hu⟩
  case still => exact fun c x hx => h.still c x ((hsame .moving (by simp) c x).mp hx).1
  case live =>
    apply h.live.map_erase hp
    intro x
    constructor
    · rintro ⟨c, hc⟩
      obtain ⟨hc, hne⟩ := (hsame .out (by simp) c x).mp hc
      exact ⟨⟨c, hc⟩, hne⟩
    · rintro ⟨⟨c, hc⟩, hne⟩
      exact ⟨c, (hsame .out (by simp) c x).mpr ⟨hc, hne⟩⟩
  case sizes =>
    intro q size' hq
    obtain ⟨hsize', hat⟩ := h.sizes q size' (List.mem_of_mem_erase hq)
    refine ⟨hsize', (hsame .out (by simp) _ q).mpr ⟨hat, ?_⟩⟩
    -- the block has left the list
    rintro rfl
    have hnodup := h.live.nodup
    have hperm : (cp.live.map Prod.fst).Perm
        ((q, size).1 :: (cp.live.erase (q, size)).map Prod.fst) :=
      (List.perm_cons_erase hp).map Prod.fst
    have hfront := List.nodup_cons.mp (hperm.nodup_iff.mp hnodup)
    exact hfront.1 (List.mem_map.mpr ⟨(q, size'), hq, rfl⟩)
  case locks =>
    show Mutex.OneLock (need (Function.update cp.threads t _)) cp.owner
    rw [need_update]
    apply h.locks.call
    rw [need_eq ht, hidle]
    rfl

/-- Every step that is in order is defined, and it keeps the invariant. -/
theorem Inv.step (h : cp.Inv kind loc) {e : PoolEvent} (hok : cp.Ok e) :
    ∃ cp' kind' loc', cp.step e = some cp' ∧ cp'.Inv kind' loc' := by
  cases e with
  | create t => exact ⟨_, kind, loc, rfl, h.create hok⟩
  | allocate t size =>
    obtain ⟨th, ht, hidle⟩ := hok
    obtain ⟨th', block, loc', hrun, hs⟩ :=
      Thread.allocate_sound h.central (h.threads t th ht) hidle size
    refine ⟨{ cp.setThread t (some th') with live := block.toList ++ cp.live }, kind, loc', ?_, ?_⟩
    · rw [ConcurrentPool.step, ht]
      simp only [Option.bind_eq_bind, Option.bind_some]
      rw [hrun]
      rfl
    · apply h.turn ht hs
      rw [need_update]
      apply h.locks.call
      rw [need_eq ht, hidle]
      rfl
  | deallocate t p size =>
    obtain ⟨⟨th, ht, hidle⟩, hp⟩ := hok
    obtain ⟨cp', loc', hrun, hinv⟩ := h.deallocate ht hidle hp
    exact ⟨cp', kind, loc', hrun, hinv⟩
  | exit t =>
    obtain ⟨th, ht, hidle⟩ := hok
    have hth := h.threads t th ht
    have hhand : ∀ c, th.task.inHand c = [] := by
      intro c
      rw [hidle]
      rfl
    have hrange : (Then.drain (List.range maxArraySize)).Fits th.cache :=
      ⟨fun c hc => List.mem_range.mp hc, fun c hc hout => absurd (List.mem_range.mpr hc) hout⟩
    obtain ⟨thread, hrun, hsettles⟩ :=
      Thread.drain_settles h.central (hth.lists hhand) hth.maxSize hrange
    refine ⟨cp.setThread t thread, kind, loc, ?_, ?_⟩
    · rw [ConcurrentPool.step, ht]
      simp only [Option.bind_eq_bind, Option.bind_some]
      rw [hrun]
      rfl
    · apply h.turn ht (Thread.Sound.still h.central (by rw [hidle]; rfl) hsettles)
      rw [need_update]
      apply h.locks.call
      rw [need_eq ht, hidle]
      rfl
  | lock t =>
    obtain ⟨th, ht, l, hl, _⟩ := hok
    refine ⟨{ cp with owner := Function.update cp.owner l (some t) }, kind, loc, ?_, ?_⟩
    · rw [ConcurrentPool.step, ht]
      simp only [Option.bind_eq_bind, Option.bind_some]
      rw [hl]
      rfl
    · exact { h with locks := h.locks.lock ((need_eq ht).trans hl) }
  | advance t system =>
    obtain ⟨th, ht, hbusy, hheld, hsystem⟩ := hok
    obtain ⟨turn, kind', loc', hrun, hs⟩ := Thread.advance_sound h.central (h.threads t th ht) hbusy
      (fun s hspan => ⟨t, th, ht, hspan⟩) fun size hsize => hsystem (by rw [hsize]; rfl)
    have hlocks : Mutex.OneLock (need (Function.update cp.threads t turn.thread))
        (Mutex.release cp.owner th.task.lock) := by
      rw [need_update, ← need_eq ht]
      exact h.locks.unlock _
    refine ⟨_, kind', loc', ?_, h.turn ht hs hlocks⟩
    rw [ConcurrentPool.step, ht]
    simp only [Option.bind_eq_bind, Option.bind_some]
    rw [hrun]
    rfl

theorem Inv.of_run {es : List PoolEvent} (hr : Transition.Run ConcurrentPool.step Ok init es cp) :
    ∃ kind loc, cp.Inv kind loc := by
  apply hr.invariant (I := fun cp => ∃ kind loc, cp.Inv kind loc) _ ⟨_, _, init_inv⟩
  rintro s e t ⟨kind, loc, hs⟩ hok hst
  obtain ⟨t', kind', loc', ht', hinv⟩ := hs.step hok
  obtain rfl := Option.some.inj (ht'.symm.trans hst)
  exact ⟨kind', loc', hinv⟩

/-! ## Live blocks -/

/-- The blocks that a thread has, for one size class. -/
def held (th : Thread) (c : Nat) : List Addr := (th.cache c).chain ++ th.task.inHand c

/-- The bytes of the live blocks are apart, they are enough, and they lie in one busy span.
No thread has a live block, and no two threads have the same one. -/
structure Disjoint (cp : ConcurrentPool) : Prop where
  apart : cp.live.Pairwise fun e f =>
    e.1 + Size.roundUp e.2 ≤ f.1 ∨ f.1 + Size.roundUp f.2 ≤ e.1
  enough : ∀ e ∈ cp.live, e.2 ≤ Size.roundUp e.2
  inside : ∀ e ∈ cp.live, ∃ k s a, cp.centralCache.pageCache.busySpanMap k = some s ∧
    cp.centralCache.pageCache.heap s = some a ∧ Span.idToPtr a.pageId ≤ e.1 ∧
    e.1 + Size.roundUp e.2 ≤ Span.idToPtr (a.pageId + a.pageCount)
  out : ∀ e ∈ cp.live, ∀ t th c, cp.threads t = some th → e.1 ∉ held th c
  owned : ∀ t u th th' c d x, cp.threads t = some th → cp.threads u = some th' →
    x ∈ held th c → x ∈ held th' d → t = u

/-- The page cache knows a busy span by its first page. -/
theorem Inv.busy_map (h : cp.Inv kind loc) {s : SpanId} {a : Span} (hk : kind s = .busy)
    (ha : cp.centralCache.pageCache.heap s = some a) :
    cp.centralCache.pageCache.busySpanMap a.pageId = some s := by
  have hpages := h.central.pages
  apply (hpages.busyMap a.pageId s).mpr
  rw [PageCache.ends_iff ha]
  exact ⟨hk, (PageCache.isEnd_extent (hpages.pos ha)).mpr (.inl rfl)⟩

theorem Inv.disjoint (h : cp.Inv kind loc) : cp.Disjoint where
  apart := by
    have hnodup : cp.live.Pairwise fun e f => e.1 ≠ f.1 := List.pairwise_map.mp h.live.nodup
    apply hnodup.imp_of_mem
    rintro ⟨p, size⟩ ⟨q, size'⟩ hp hq hne
    obtain ⟨hsize, ⟨s, a, hs, ha, hx⟩, _⟩ := h.sizes p size hp
    obtain ⟨hsize', ⟨t, b, ht, hb, hy⟩, _⟩ := h.sizes q size' hq
    have hround := (Size.indexToSize_roundUp hsize.1 hsize.2).2
    have hround' := (Size.indexToSize_roundUp hsize'.1 hsize'.2).2
    dsimp only at hne ⊢
    rw [← hround, ← hround']
    by_cases hst : s = t
    · subst hst
      have hclass := (h.central.spans s).oneClass _ _ hs ht
      obtain rfl := Option.some.inj (ha.symm.trans hb)
      unfold Task.listOf at hclass hx hy
      rw [← hclass] at hy ⊢
      exact block_apart hx hy hne
    · -- two spans have no page in common, and a block lies within the pages of its span
      have hpages := h.central.pages
      have horder := Extent.before_or_after (hpages.pos ha) (hpages.pos hb) fun k hk hk' =>
        hst (h.central.page_unique ha hb hk hk')
      change a.pageId + a.pageCount ≤ b.pageId ∨ b.pageId + b.pageCount ≤ a.pageId at horder
      have hin := block_inside hx
      have hin' := block_inside hy
      unfold Task.listOf at hin hin'
      omega
  enough := by
    rintro ⟨p, size⟩ hp
    exact Size.le_roundUp (h.sizes p size hp).1.2
  inside := by
    rintro ⟨p, size⟩ hp
    obtain ⟨hsize, ⟨s, a, hs, ha, hx⟩, _⟩ := h.sizes p size hp
    refine ⟨a.pageId, s, a, h.busy_map (h.central.listed hs).1 ha, ha, ?_⟩
    rw [idToPtr_eq, idToPtr_eq]
    dsimp only
    rw [← (Size.indexToSize_roundUp hsize.1 hsize.2).2]
    exact block_inside hx
  out := by
    rintro ⟨p, size⟩ hp t th c ht hmem
    have hat := (((h.threads t th ht).chain c).mem p).mp hmem
    exact nomatch (h.sizes p size hp).2.2.symm.trans hat.2
  owned := by
    intro t u th th' c d x ht hu hx hx'
    have hat := (((h.threads t th ht).chain c).mem x).mp hx
    have hat' := (((h.threads u th' hu).chain d).mem x).mp hx'
    exact Place.cache.inj (hat.2.symm.trans hat'.2)

/-- Without threads and live blocks no span is busy. -/
theorem Inv.drained (h : cp.Inv kind loc) (hlive : cp.live = [])
    (hthreads : ∀ t, cp.threads t = none) (k : Nat) :
    cp.centralCache.pageCache.busySpanMap k = none := by
  cases hk : cp.centralCache.pageCache.busySpanMap k with
  | none => rfl
  | some s =>
    obtain ⟨e, ⟨hkind, he⟩, _⟩ := (h.central.pages.busyMap k s).mp hk
    obtain ⟨a, ha, _⟩ := PageCache.heap_of_extents he
    rcases (h.central.spans s).busy.mp ⟨hkind, a, ha⟩ with ⟨c, hs⟩ | ⟨t, th, ht, _⟩
    · have hchain := (h.central.spans s).chain c a hs ha
      have hused := (h.central.spans s).used c a hs ha
      have hpos := h.inUse c s a hs ha fun e => nomatch e
      -- every block of the span is at home
      have hall : ∀ x ∈ blocksOf a (Size.indexToSize c), loc x = .home := by
        intro x hx
        have hblock : cp.centralCache.IsBlock c x := ⟨s, a, hs, ha, hx⟩
        cases hplace : loc x with
        | home => rfl
        | cache t =>
          obtain ⟨th, ht⟩ := h.owned c t x ⟨hblock, hplace⟩
          exact nomatch (hthreads t).symm.trans ht
        | moving => exact absurd ⟨hblock, hplace⟩ (h.still c x)
        | out =>
          have hmem := (h.live.mem x).mpr ⟨c, hblock, hplace⟩
          rw [hlive] at hmem
          exact absurd hmem List.not_mem_nil
      have hblocks := blocksOf_nodup (a := a) (h.central.size_pos hs)
      have hperm : a.freeList.chain.Perm (blocksOf a (Size.indexToSize c)) := by
        apply (List.perm_ext_iff_of_nodup hchain.nodup hblocks).mpr
        intro x
        rw [hchain.mem]
        exact and_iff_left_of_imp (hall x)
      rw [hperm.length_eq] at hused
      omega
    · exact nomatch (hthreads t).symm.trans ht

/-! ## Safety -/

/-- In every interleaving of any threads the live blocks do not overlap, no thread has a block
of another one, the next step is defined, and the last thread leaves no span behind. -/
theorem threads_apart (es : List PoolEvent) (cp : ConcurrentPool)
    (hr : Transition.Run step Ok init es cp) :
    cp.Disjoint ∧ (∀ e, cp.Ok e → ∃ cp', cp.step e = some cp') ∧
      (cp.live = [] → (∀ t, cp.threads t = none) →
        ∀ k, cp.centralCache.pageCache.busySpanMap k = none) := by
  obtain ⟨kind, loc, h⟩ := Inv.of_run hr
  refine ⟨h.disjoint, fun e hok => ?_, h.drained⟩
  obtain ⟨cp', _, _, hst, _⟩ := h.step hok
  exact ⟨cp', hst⟩

/-- Two threads find no free span and fetch one each, and the second one frees the block of
the first one. -/
theorem threads_apart_two : ∃ cp, Transition.Run step Ok init
    [.create 0, .create 1, .allocate 0 262144, .allocate 1 262144, .lock 0, .advance 0 0, .lock 1,
      .advance 1 0, .lock 0, .advance 0 0x100000, .lock 1, .advance 1 0x180000, .advance 0 0,
      .advance 1 0, .lock 1, .advance 1 0, .lock 0, .advance 0 0,
      .deallocate 1 0x140000 262144] cp ∧ cp.live = [(0x1c0000, 262144)] ∧ cp.Disjoint := by
  have hexec : (Transition.exec step Ok init
      [.create 0, .create 1, .allocate 0 262144, .allocate 1 262144, .lock 0, .advance 0 0, .lock 1,
        .advance 1 0, .lock 0, .advance 0 0x100000, .lock 1, .advance 1 0x180000, .advance 0 0,
        .advance 1 0, .lock 1, .advance 1 0, .lock 0, .advance 0 0,
        .deallocate 1 0x140000 262144]).map
      (fun cp => decide (cp.live = [(0x1c0000, 262144)])) = some true := by decide +kernel
  obtain ⟨cp, hr, hlive⟩ := Transition.Run.exists_of_exec hexec
  exact ⟨cp, hr, of_decide_eq_true hlive, (threads_apart _ cp hr).1⟩

end ConcurrentPool

end Pool

end WWRaftKV
