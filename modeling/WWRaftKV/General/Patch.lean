/-
Patches of a slot, and the updates of a finite map that patch every key on its own.

A patch leaves a slot as it is, fills it when it is empty, or sets it.  Patches are closed
under composition, and patching twice is patching once.  So a sequence of keyed updates, taken
as one, can be repeated without harm, although the updates in it depend on one another.
-/
import WWRaftKV.General.SortedMap

/-! ## One slot -/

inductive Patch (ν : Type)
  | keep
  | fill (v : ν)
  | set (o : Option ν)
deriving DecidableEq, Repr

namespace Patch

variable {ν : Type}

def on : Patch ν → Option ν → Option ν
  | keep, o => o
  | fill v, o => o.or (some v)
  | set o, _ => o

/-- First `p`, then `q`. -/
def comp (p q : Patch ν) : Patch ν :=
  match q with
  | keep => p
  | set o => set o
  | fill v =>
    match p with
    | keep => fill v
    | fill w => fill w
    | set o => set (o.or (some v))

theorem on_comp (p q : Patch ν) (o : Option ν) : (p.comp q).on o = q.on (p.on o) := by
  cases q with
  | keep => rfl
  | set o' => rfl
  | fill v =>
    cases p with
    | keep => rfl
    | set o' => rfl
    | fill w => cases o <;> rfl

/-- Patching twice is patching once. -/
theorem on_on (p : Patch ν) (o : Option ν) : p.on (p.on o) = p.on o := by
  cases p with
  | keep => rfl
  | set o' => rfl
  | fill v => cases o <;> rfl

end Patch

/-! ## A finite map -/

namespace SortedMap

open Patch

variable {κ ν : Type} [LinearOrder κ] {f g : (Finmap fun _ : κ => ν) → Finmap fun _ : κ => ν}
  {p q : κ → Patch ν} {key : κ}

/-- The update treats every key on its own. -/
def Keyed (f : (Finmap fun _ : κ => ν) → Finmap fun _ : κ => ν) (p : κ → Patch ν) : Prop :=
  ∀ m k, lookup k (f m) = (p k).on (lookup k m)

theorem keyed_id : Keyed (fun m : Finmap fun _ : κ => ν => m) fun _ => keep := fun _ _ => rfl

theorem Keyed.comp (hf : Keyed f p) (hg : Keyed g q) :
    Keyed (fun m => g (f m)) fun k => (p k).comp (q k) := by
  intro m k
  rw [on_comp, hg, hf]

/-- A keyed update can be repeated. -/
theorem Keyed.twice (hf : Keyed f p) (m : Finmap fun _ : κ => ν) : f (f m) = f m := by
  apply Finmap.ext_lookup
  intro k
  show lookup k (f (f m)) = lookup k (f m)
  rw [hf, hf, on_on]

/-- The patch of the one key that an update is about. -/
def onlyAt (key : κ) (p : Patch ν) (k : κ) : Patch ν := if k = key then p else keep

theorem keyed_onlyAt {p : Patch ν} (hself : ∀ m, lookup key (f m) = p.on (lookup key m))
    (hother : ∀ m k, k ≠ key → lookup k (f m) = lookup k m) : Keyed f (onlyAt key p) := by
  intro m k
  unfold onlyAt
  by_cases hk : k = key
  · rw [if_pos hk, hk]
    exact hself m
  · rw [if_neg hk]
    exact hother m k hk

theorem keyed_insert (key : κ) (v : ν) : Keyed (insert key v) (onlyAt key (set (some v))) :=
  keyed_onlyAt (fun m => Finmap.lookup_insert m) fun m _ hk => Finmap.lookup_insert_of_ne m hk

theorem keyed_erase (key : κ) :
    Keyed (erase (ν := ν) key) (onlyAt key (set none)) :=
  keyed_onlyAt (fun m => Finmap.lookup_erase key m) fun _ _ hk => Finmap.lookup_erase_ne hk

/-- Insertion where the key is absent. -/
theorem keyed_insertNew (key : κ) (v : ν) :
    Keyed (fun m => if (lookup key m).isSome then m else insert key v m)
      (onlyAt key (fill v)) := by
  apply keyed_onlyAt
  · intro m
    cases hm : lookup key m with
    | none =>
      show lookup key (insert key v m) = some v
      exact Finmap.lookup_insert m
    | some w =>
      show lookup key m = some w
      exact hm
  · intro m k hk
    split
    · rfl
    · exact Finmap.lookup_insert_of_ne m hk

end SortedMap
