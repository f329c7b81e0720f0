/-
Threads that wait for locks.

A thread takes the lock that its next step needs, takes the step, and unlocks.  So it holds
no lock but the one that it needs, and it never waits with a lock in its hands: whenever a
thread waits, the one that it waits for can go on.
-/
import Mathlib.Logic.Function.Basic

namespace WWRaftKV

namespace Mutex

variable {ι L : Type}

/-- The lock that a step was under is free again. -/
def release [DecidableEq L] (owner : L → Option ι) : Option L → L → Option ι
  | none => owner
  | some l => Function.update owner l none

/-- `need` is the lock of the next step of every thread, and `owner` the holder of every
lock. -/
def OneLock (need : ι → Option L) (owner : L → Option ι) : Prop :=
  ∀ l t, owner l = some t → need t = some l

/-- The thread can take its next step, or the lock for it. -/
def Ready (need : ι → Option L) (owner : L → Option ι) (t : ι) : Prop :=
  ∀ l, need t = some l → owner l = none ∨ owner l = some t

variable {need : ι → Option L} {owner : L → Option ι} {t : ι} {l : L}

theorem release_eq [DecidableEq L] {o : Option L} (h : release owner o l = some t) :
    owner l = some t ∧ o ≠ some l := by
  cases o with
  | none => exact ⟨h, fun e => nomatch e⟩
  | some k =>
    rw [release] at h
    by_cases hlk : l = k
    · rw [hlk, Function.update_self] at h
      cases h
    · rw [Function.update_of_ne hlk] at h
      exact ⟨h, fun e => hlk (Option.some.inj e).symm⟩

namespace OneLock

/-- A thread takes the lock that it needs. -/
theorem lock [DecidableEq L] (h : OneLock need owner) (ht : need t = some l) :
    OneLock need (Function.update owner l (some t)) := by
  intro k u hk
  by_cases hkl : k = l
  · rw [hkl, Function.update_self] at hk
    rw [← Option.some.inj hk, hkl]
    exact ht
  · rw [Function.update_of_ne hkl] at hk
    exact h k u hk

/-- A thread without a need holds nothing, and it may need any lock next. -/
theorem call [DecidableEq ι] (h : OneLock need owner) (ht : need t = none) (o : Option L) :
    OneLock (Function.update need t o) owner := by
  intro k u hk
  have hu := h k u hk
  by_cases hut : u = t
  · rw [hut, ht] at hu
    cases hu
  · rw [Function.update_of_ne hut]
    exact hu

/-- A step ends with the unlocking, and the thread may need any lock next. -/
theorem unlock [DecidableEq ι] [DecidableEq L] (h : OneLock need owner) (o : Option L) :
    OneLock (Function.update need t o) (release owner (need t)) := by
  intro k u hk
  obtain ⟨hk, hne⟩ := release_eq hk
  have hu := h k u hk
  by_cases hut : u = t
  · rw [hut] at hu
    exact absurd hu hne
  · rw [Function.update_of_ne hut]
    exact hu

/-- No deadlock: a thread is ready, or the holder of its lock is. -/
theorem exists_ready (h : OneLock need owner) (t : ι) :
    Ready need owner t ∨ ∃ l u, need t = some l ∧ owner l = some u ∧ Ready need owner u := by
  cases hl : need t with
  | none => exact .inl fun l hl' => nomatch hl.symm.trans hl'
  | some l =>
    cases hu : owner l with
    | none =>
      refine .inl fun k hk => .inl ?_
      obtain rfl := Option.some.inj (hl.symm.trans hk)
      exact hu
    | some u =>
      refine .inr ⟨l, u, rfl, hu, fun k hk => .inr ?_⟩
      obtain rfl := Option.some.inj ((h l u hu).symm.trans hk)
      exact hu

end OneLock

end Mutex

end WWRaftKV
