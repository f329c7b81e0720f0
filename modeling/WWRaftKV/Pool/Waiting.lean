/-
No thread waits for ever.

The work of a thread counts the locks and the steps that are left of its call.  Every lock
that it takes and every step makes it less, and no other thread changes it.  Whenever a call
is not done, some thread can go on.
-/
import WWRaftKV.Pool.Interleave

namespace WWRaftKV

namespace Pool

/-! ## The work that is left -/

/-- Each object costs four locks and four steps at most, and each list one of each. -/
def Then.work (tc : ThreadCache) : Then → Nat
  | .idle => 0
  | .drain rest => (rest.map fun c => 2 + 8 * (tc c).chain.length).sum

def Task.work (tc : ThreadCache) : Task → Nat
  | .idle => 0
  | .fetchRange _ => 7
  | .fetchSpan _ => 5
  | .carve _ _ => 3
  | .pushSpan _ _ => 2
  | .returnRange _ objects after => 2 + 8 * objects.length + after.work tc
  | .objectToSpan _ _ rest after => 8 + 8 * rest.length + after.work tc
  | .returnObject _ _ _ rest after => 6 + 8 * rest.length + after.work tc
  | .returnSpan _ _ rest after => 4 + 8 * rest.length + after.work tc

theorem Then.work_cons (tc : ThreadCache) (index : Nat) (rest : List Nat) :
    (Then.drain (index :: rest)).work tc =
      2 + 8 * (tc index).chain.length + (Then.drain rest).work tc := by
  show ((index :: rest).map fun c => 2 + 8 * (tc c).chain.length).sum = _
  rw [List.map_cons, List.sum_cons]
  rfl

/-- Shorter lists are less work. -/
theorem Then.work_mono {tc tc' : ThreadCache}
    (h : ∀ c, (tc' c).chain.length ≤ (tc c).chain.length) (rest : List Nat) :
    (Then.drain rest).work tc' ≤ (Then.drain rest).work tc := by
  induction rest with
  | nil => exact Nat.le_refl 0
  | cons index rest ih =>
    have := h index
    rw [work_cons, work_cons]
    omega

namespace Thread

/-- The work of a thread, if it has not ended. -/
def work : Option Thread → Nat
  | some th => th.task.work th.cache
  | none => 0

variable {tc : ThreadCache} {cc : CentralCache} {turn : Turn}

theorem drain_work {rest : List Nat} {thread : Option Thread}
    (h : drain rest tc = some thread) : work thread ≤ (Then.drain rest).work tc := by
  induction rest with
  | nil =>
    obtain rfl := Option.some.inj h
    exact Nat.le_refl 0
  | cons index rest ih =>
    rw [drain] at h
    rw [Then.work_cons]
    split at h
    next =>
      have := ih h
      omega
    next =>
      have hsize : (tc index).size ≤ (tc index).chain.length := Nat.le_refl _
      simp only [Option.bind_eq_bind] at h
      rw [ThreadCache.takeLoop_eq hsize, Option.bind_some, List.append_nil] at h
      obtain rfl := Option.some.inj h
      have hshorter : ∀ c, (Function.update tc index
          { tc index with chain := (tc index).chain.drop (tc index).size } c).chain.length ≤
          (tc c).chain.length := by
        intro c
        by_cases hc : c = index
        · rw [hc, Function.update_self, List.length_drop]
          exact Nat.sub_le _ _
        · rw [Function.update_of_ne hc]
      have hrest := Then.work_mono hshorter rest
      have hlen := List.length_take_le (tc index).size (tc index).chain
      show 2 + 8 * ((tc index).chain.take (tc index).size).reverse.length +
        (Then.drain rest).work (Function.update tc index
          { tc index with chain := (tc index).chain.drop (tc index).size }) ≤ _
      rw [List.length_reverse]
      omega

theorem returnLoop_work {index : Nat} {objects : List Addr} {after : Then}
    (h : returnLoop cc tc index objects after = some turn) :
    work turn.thread ≤ 8 * objects.length + after.work tc := by
  cases objects with
  | cons object rest =>
    obtain rfl := Option.some.inj h
    show 8 + 8 * rest.length + after.work tc ≤ _
    rw [List.length_cons]
    omega
  | nil =>
    obtain ⟨thread, hresume, h⟩ := Option.bind_eq_some_iff.mp h
    obtain rfl := Option.some.inj h
    cases after with
    | idle =>
      obtain rfl := Option.some.inj hresume
      exact Nat.le_refl 0
    | drain rest =>
      have := drain_work hresume
      rw [List.length_nil, Nat.mul_zero, Nat.zero_add]
      exact this

theorem takeBlocks_work {size : Nat} {s : SpanId} (h : takeBlocks cc tc size s = some turn) :
    work turn.thread = 0 := by
  obtain ⟨a, _, h⟩ := Option.bind_eq_some_iff.mp h
  obtain ⟨⟨b, objects⟩, _, h⟩ := Option.bind_eq_some_iff.mp h
  obtain ⟨⟨object, list⟩, _, h⟩ := Option.bind_eq_some_iff.mp h
  obtain rfl := Option.some.inj h
  rfl

/-- The lock and the step, or the step alone where there is no lock. -/
def cost (task : Task) : Nat := if task.lock.isSome then 2 else 1

/-- A step leaves less work, by its lock and itself. -/
theorem advance_work {th : Thread} {system : Addr} (h : th.advance cc system = some turn) :
    work turn.thread + cost th.task ≤ th.task.work th.cache := by
  obtain ⟨tc, task⟩ := th
  cases task with
  | idle => cases h
  | fetchRange size =>
    obtain ⟨found, _, h⟩ := Option.bind_eq_some_iff.mp h
    cases found with
    | some s =>
      rw [takeBlocks_work h]
      exact (by decide : 2 ≤ 7)
    | none =>
      obtain rfl := Option.some.inj h
      exact Nat.le_refl 7
  | fetchSpan size =>
    obtain ⟨⟨pc, span⟩, _, h⟩ := Option.bind_eq_some_iff.mp h
    obtain ⟨s, _, h⟩ := Option.bind_eq_some_iff.mp h
    obtain rfl := Option.some.inj h
    exact Nat.le_refl 5
  | carve size s =>
    obtain ⟨a, _, h⟩ := Option.bind_eq_some_iff.mp h
    obtain rfl := Option.some.inj h
    exact Nat.le_refl 3
  | pushSpan size s =>
    rw [takeBlocks_work h]
    exact Nat.le_refl 2
  | returnRange index objects after =>
    have hloop : work turn.thread ≤ 8 * objects.length + after.work tc := returnLoop_work h
    show work turn.thread + 2 ≤ 2 + 8 * objects.length + after.work tc
    omega
  | objectToSpan index object rest after =>
    obtain ⟨span, _, h⟩ := Option.bind_eq_some_iff.mp h
    obtain rfl := Option.some.inj h
    show 6 + 8 * rest.length + after.work tc + 2 ≤ 8 + 8 * rest.length + after.work tc
    omega
  | returnObject index object span rest after =>
    show work turn.thread + 2 ≤ 6 + 8 * rest.length + after.work tc
    cases span with
    | none =>
      have hloop : work turn.thread ≤ 8 * rest.length + after.work tc := returnLoop_work h
      omega
    | some s =>
      obtain ⟨a, _, h⟩ := Option.bind_eq_some_iff.mp h
      dsimp only at h
      split at h
      next =>
        obtain ⟨list, _, h⟩ := Option.bind_eq_some_iff.mp h
        obtain rfl := Option.some.inj h
        show 4 + 8 * rest.length + after.work tc + 2 ≤ _
        omega
      next =>
        have hloop : work turn.thread ≤ 8 * rest.length + after.work tc := returnLoop_work h
        omega
  | returnSpan index s rest after =>
    obtain ⟨pc, _, h⟩ := Option.bind_eq_some_iff.mp h
    obtain rfl := Option.some.inj h
    show 2 + 8 * rest.length + after.work tc + 2 ≤ 4 + 8 * rest.length + after.work tc
    omega

end Thread

namespace PoolEvent

/-- The event is the start of a call. -/
def isCall : PoolEvent → Bool
  | .create _ => true
  | .allocate _ _ => true
  | .deallocate _ _ _ => true
  | .exit _ => true
  | .lock _ => false
  | .advance _ _ => false

end PoolEvent

namespace ConcurrentPool

/-- The thread holds the lock of its next step. -/
def holds (cp : ConcurrentPool) (t : Nat) : Bool :=
  ((need cp.threads t).bind cp.owner) = some t

/-- The locks and steps that are left of the call of a thread. -/
def work (cp : ConcurrentPool) (t : Nat) : Nat :=
  Thread.work (cp.threads t) - if cp.holds t then 1 else 0

variable {cp cp' : ConcurrentPool} {kind : SpanId → Kind} {loc : Addr → Place} {t u : Nat}

theorem work_le (cp : ConcurrentPool) (t : Nat) : cp.work t ≤ Thread.work (cp.threads t) :=
  Nat.sub_le _ _

/-- Another thread's lock or step. -/
theorem work_congr (hthread : cp'.threads t = cp.threads t)
    (howner : ∀ l, cp'.owner l = some t ↔ cp.owner l = some t) : cp'.work t = cp.work t := by
  have hneed : need cp'.threads t = need cp.threads t := by
    unfold need
    rw [hthread]
  have hholds : cp'.holds t = cp.holds t := by
    unfold holds
    rw [hneed]
    cases need cp.threads t with
    | none => rfl
    | some l =>
      rw [Option.bind_some, Option.bind_some]
      exact decide_eq_decide.mpr (howner l)
  unfold work
  rw [hthread, hholds]

theorem lock_eq (h : cp.step (.lock t) = some cp') :
    ∃ th l, cp.threads t = some th ∧ th.task.lock = some l ∧
      cp' = { cp with owner := Function.update cp.owner l (some t) } := by
  obtain ⟨th, ht, h⟩ := Option.bind_eq_some_iff.mp h
  obtain ⟨l, hl, h⟩ := Option.bind_eq_some_iff.mp h
  exact ⟨th, l, ht, hl, (Option.some.inj h).symm⟩

theorem advance_eq {system : Addr} (h : cp.step (.advance t system) = some cp') :
    ∃ th turn, cp.threads t = some th ∧ th.advance cp.centralCache system = some turn ∧
      cp'.threads = Function.update cp.threads t turn.thread ∧
      cp'.owner = Mutex.release cp.owner th.task.lock := by
  obtain ⟨th, ht, h⟩ := Option.bind_eq_some_iff.mp h
  obtain ⟨turn, hrun, h⟩ := Option.bind_eq_some_iff.mp h
  obtain rfl := Option.some.inj h
  exact ⟨th, turn, ht, hrun, rfl, rfl⟩

/-- A task that needs a lock has the lock and the step before it. -/
theorem two_le_work {tc : ThreadCache} {task : Task} (h : task.lock ≠ none) :
    2 ≤ task.work tc := by
  cases task <;> simp only [Task.work, Task.lock, ne_eq, not_true_eq_false] at h ⊢ <;> omega

/-- A lock that is taken is work done. -/
theorem lock_falls (hok : cp.Ok (.lock t)) (hst : cp.step (.lock t) = some cp') :
    cp'.work t < cp.work t := by
  obtain ⟨th, l, ht, hl, rfl⟩ := lock_eq hst
  obtain ⟨th', ht', l', hl', hfree⟩ := hok
  obtain rfl := Option.some.inj (ht.symm.trans ht')
  obtain rfl := Option.some.inj (hl.symm.trans hl')
  have hneed : need cp.threads t = some l := (need_eq ht).trans hl
  have htwo : 2 ≤ th.task.work th.cache := two_le_work (by rw [hl]; exact fun e => nomatch e)
  have hbefore : cp.holds t = false := by
    unfold holds
    rw [hneed, Option.bind_some, hfree]
    rfl
  have hafter : holds { cp with owner := Function.update cp.owner l (some t) } t = true := by
    unfold holds
    rw [hneed, Option.bind_some]
    exact decide_eq_true (Function.update_self ..)
  unfold work
  rw [hbefore, hafter]
  show Thread.work (cp.threads t) - 1 < Thread.work (cp.threads t) - 0
  rw [ht]
  show th.task.work th.cache - 1 < th.task.work th.cache - 0
  omega

/-- A step is work done. -/
theorem advance_falls {system : Addr} (hst : cp.step (.advance t system) = some cp') :
    cp'.work t < cp.work t := by
  obtain ⟨th, turn, ht, hrun, hthreads, _⟩ := advance_eq hst
  have hless := Thread.advance_work hrun
  have hle := cp'.work_le t
  rw [hthreads, Function.update_self] at hle
  have hwork : cp.work t = th.task.work th.cache - if cp.holds t then 1 else 0 := by
    unfold work
    rw [ht]
    rfl
  rw [hwork]
  unfold Thread.cost at hless
  cases hl : th.task.lock with
  | none =>
    have hholds : cp.holds t = false := by
      unfold holds
      rw [need_eq ht, hl]
      rfl
    rw [hl] at hless
    rw [hholds]
    change Thread.work turn.thread + 1 ≤ _ at hless
    show _ < th.task.work th.cache - 0
    omega
  | some l =>
    rw [hl] at hless
    change Thread.work turn.thread + 2 ≤ _ at hless
    split <;> omega

/-- What the other threads do leaves the work of a thread as it is. -/
theorem Inv.work_other (h : cp.Inv kind loc) {e : PoolEvent} (hne : e.thread ≠ t)
    (hok : cp.Ok e) (hst : cp.step e = some cp') : cp'.work t = cp.work t := by
  have htu : t ≠ e.thread := fun heq => hne heq.symm
  cases e with
  | create u =>
    obtain rfl := Option.some.inj hst
    exact work_congr (Function.update_of_ne htu ..) fun l => Iff.rfl
  | allocate u size =>
    obtain ⟨th, _, hst⟩ := Option.bind_eq_some_iff.mp hst
    obtain ⟨⟨th', block⟩, _, hst⟩ := Option.bind_eq_some_iff.mp hst
    obtain rfl := Option.some.inj hst
    exact work_congr (Function.update_of_ne htu ..) fun l => Iff.rfl
  | deallocate u p size =>
    obtain ⟨th, _, hst⟩ := Option.bind_eq_some_iff.mp hst
    obtain ⟨th', _, hst⟩ := Option.bind_eq_some_iff.mp hst
    obtain rfl := Option.some.inj hst
    exact work_congr (Function.update_of_ne htu ..) fun l => Iff.rfl
  | exit u =>
    obtain ⟨th, _, hst⟩ := Option.bind_eq_some_iff.mp hst
    obtain ⟨th', _, hst⟩ := Option.bind_eq_some_iff.mp hst
    obtain rfl := Option.some.inj hst
    exact work_congr (Function.update_of_ne htu ..) fun l => Iff.rfl
  | lock u =>
    obtain ⟨th, l, hu, hl, rfl⟩ := lock_eq hst
    obtain ⟨th', hu', l', hl', hfree⟩ := hok
    obtain rfl := Option.some.inj (hu.symm.trans hu')
    obtain rfl := Option.some.inj (hl.symm.trans hl')
    refine work_congr (by rfl) fun k => ?_
    show Function.update cp.owner l (some u) k = some t ↔ _
    by_cases hkl : k = l
    · rw [hkl, Function.update_self, hfree]
      exact ⟨fun heq => absurd (Option.some.inj heq) hne, fun heq => nomatch heq⟩
    · rw [Function.update_of_ne hkl]
  | advance u system =>
    obtain ⟨th, turn, hu, _, hthreads, howner⟩ := advance_eq hst
    apply work_congr
    · rw [hthreads]
      exact Function.update_of_ne htu ..
    · intro l
      rw [howner]
      constructor
      · exact fun hl => (Mutex.release_eq hl).1
      · intro hl
        have hneed := h.locks l t hl
        cases hlock : th.task.lock with
        | none => exact hl
        | some k =>
          -- the lock that is released is the one of the other thread
          obtain ⟨th', hu', _, hheld, _⟩ := hok
          obtain rfl := Option.some.inj (hu.symm.trans hu')
          have hk := hheld k hlock
          have hlk : l ≠ k := by
            rintro rfl
            exact htu (Option.some.inj (hl.symm.trans hk))
          exact (Function.update_of_ne hlk ..).trans hl

/-- A thread whose call is not done has work left. -/
theorem idle_of_work {th : Thread} (ht : cp.threads t = some th) (hwork : cp.work t = 0) :
    th.task = .idle := by
  have hless : th.task.work th.cache ≤ 1 := by
    unfold work at hwork
    rw [ht] at hwork
    change th.task.work th.cache - _ = 0 at hwork
    split at hwork <;> omega
  cases htask : th.task with
  | idle => rfl
  | carve size s =>
    rw [htask] at hless
    exact absurd hless (show ¬ 3 ≤ 1 by decide)
  | _ =>
    have htwo : 2 ≤ th.task.work th.cache := by
      apply two_le_work
      rw [htask]
      exact fun e => nomatch e
    omega

/-- Some thread can take a lock or a step while a call is not done. -/
theorem Inv.goes_on (h : cp.Inv kind loc) {th : Thread} (ht : cp.threads t = some th)
    (hbusy : th.task ≠ .idle) :
    ∃ u, cp.Ok (.lock u) ∨
      ∀ system, cp.centralCache.pageCache.FreshRegion system → cp.Ok (.advance u system) := by
  -- a thread that is ready, with a task that is not done
  have hready : ∀ u th', cp.threads u = some th' → th'.task ≠ .idle →
      Mutex.Ready (need cp.threads) cp.owner u → cp.Ok (.lock u) ∨
        ∀ system, cp.centralCache.pageCache.FreshRegion system → cp.Ok (.advance u system) := by
    intro u th' hu hbusy' hready
    by_cases hfree : ∃ l ∈ th'.task.lock, cp.owner l = none
    · exact .inl ⟨th', hu, hfree⟩
    · refine .inr fun system hsystem => ⟨th', hu, hbusy', fun l hl => ?_, fun _ => hsystem⟩
      exact (hready l ((need_eq hu).trans hl)).resolve_left fun hnone => hfree ⟨l, hl, hnone⟩
  rcases h.locks.exists_ready t with hgo | ⟨l, u, _, hl, hgo⟩
  · exact ⟨t, hready t th ht hbusy hgo⟩
  · have hneed := h.locks l u hl
    obtain ⟨th', hu, hlock⟩ := Option.bind_eq_some_iff.mp hneed
    refine ⟨u, hready u th' hu ?_ hgo⟩
    intro hidle
    rw [hidle] at hlock
    cases hlock

/-- A thread holds no lock but the one that its next step needs, so it never waits with a lock
in its hands.  In the middle of a call some thread can go on, and until its next call it takes
no more locks and steps than its work, whatever the other threads do.  With no work left its
call is done. -/
theorem calls_return (es : List PoolEvent) (cp : ConcurrentPool)
    (hr : Transition.Run step Ok init es cp) (t : Nat) (th : Thread)
    (ht : cp.threads t = some th) :
    (∀ l, cp.owner l = some t → th.task.lock = some l) ∧
    (th.task ≠ .idle → ∃ u, cp.Ok (.lock u) ∨
      ∀ system, cp.centralCache.pageCache.FreshRegion system → cp.Ok (.advance u system)) ∧
    (cp.work t = 0 → th.task = .idle) ∧
    ∀ es' cp', Transition.Run step (fun cp e => cp.Ok e ∧ (e.isCall = true → e.thread ≠ t)) cp es'
        cp' → (es'.countP fun e => e.thread = t) + cp'.work t ≤ cp.work t := by
  obtain ⟨kind, loc, h⟩ := Inv.of_run hr
  refine ⟨fun l hl => ?_, h.goes_on ht, idle_of_work ht, fun es' cp' hrun => ?_⟩
  · have hneed : need cp.threads t = some l := h.locks l t hl
    rwa [need, ht] at hneed
  apply hrun.countP_le (I := fun cp => ∃ kind loc, cp.Inv kind loc) _ _ _ ⟨kind, loc, h⟩
  · rintro cp e cp' ⟨kind, loc, h⟩ hok hst
    obtain ⟨_, kind', loc', hst', hinv⟩ := h.step hok.1
    obtain rfl := Option.some.inj (hst'.symm.trans hst)
    exact ⟨kind', loc', hinv⟩
  · rintro cp e cp' _ ⟨hok, hcall⟩ hst hthread
    have hthread : e.thread = t := of_decide_eq_true hthread
    cases e with
    | lock u =>
      obtain rfl : u = t := hthread
      exact lock_falls hok hst
    | advance u system =>
      obtain rfl : u = t := hthread
      exact advance_falls hst
    | _ => exact absurd hthread (hcall rfl)
  · rintro cp e cp' ⟨kind, loc, h⟩ ⟨hok, _⟩ hst hthread
    exact Nat.le_of_eq (h.work_other (of_decide_eq_false hthread) hok hst)

/-- A first allocation is done after four locks and steps and the cutting of the span. -/
theorem calls_return_allocate : ∃ cp cp', Transition.Run step Ok init
    [.create 0, .create 1, .allocate 0 262144, .allocate 1 8] cp ∧
      Transition.Run step (fun cp e => cp.Ok e ∧ (e.isCall = true → e.thread ≠ 0))
        cp [.lock 0, .advance 0 0, .lock 1, .lock 0, .advance 0 0x100000, .advance 0 0, .lock 0,
          .advance 0 0] cp' ∧
      cp.work 0 = 7 ∧ 7 + cp'.work 0 ≤ cp.work 0 := by
  have hexec : (Transition.exec step Ok init
      [.create 0, .create 1, .allocate 0 262144, .allocate 1 8]).map (fun cp => decide
        ((cp.threads 0).isSome = true ∧ cp.work 0 = 7 ∧ (Transition.exec step
          (fun cp e => cp.Ok e ∧ (e.isCall = true → e.thread ≠ 0)) cp
          [.lock 0, .advance 0 0, .lock 1, .lock 0, .advance 0 0x100000, .advance 0 0, .lock 0,
            .advance 0 0]).isSome = true)) = some true := by decide +kernel
  obtain ⟨cp, hr, hp⟩ := Transition.Run.exists_of_exec hexec
  obtain ⟨hthread, hwork, hrest⟩ := of_decide_eq_true hp
  obtain ⟨th, ht⟩ := Option.isSome_iff_exists.mp hthread
  obtain ⟨cp', hexec'⟩ := Option.isSome_iff_exists.mp hrest
  have hrun := Transition.Run.of_exec hexec'
  exact ⟨cp, cp', hr, hrun, hwork, (calls_return _ cp hr 0 th ht).2.2.2 _ cp' hrun⟩

end ConcurrentPool

end Pool

end WWRaftKV
