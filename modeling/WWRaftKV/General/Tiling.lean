/-
Extents that tile a set of numbers, and maps that know their ends.

Parts are named, and a part is an extent.  Parts are cut, joined and added, and what they
cover is the same set but for what is added.  A map indexes the parts when its keys are
exactly the keys of the parts.
-/
import Mathlib.Data.Set.Basic
import Mathlib.Logic.Function.Basic

namespace WWRaftKV

/-- The numbers from `start` on, `len` of them. -/
structure Extent where
  start : Nat
  len : Nat
deriving DecidableEq, Repr

namespace Extent

variable {e f g : Extent} {k : Nat}

def Covers (e : Extent) (k : Nat) : Prop := e.start ≤ k ∧ k < e.start + e.len

instance : Decidable (e.Covers k) := inferInstanceAs (Decidable (_ ∧ _))

/-- Two extents without a common number lie one after the other. -/
theorem before_or_after (he : 0 < e.len) (hf : 0 < f.len)
    (h : ∀ k, e.Covers k → ¬ f.Covers k) :
    e.start + e.len ≤ f.start ∨ f.start + f.len ≤ e.start := by
  have hstart := h e.start
  have hstart' := h f.start
  unfold Covers at hstart hstart'
  omega

/-- `k` is the first number of the extent, or the last one. -/
def IsEnd (e : Extent) (k : Nat) : Prop := k = e.start ∨ k + 1 = e.start + e.len

theorem IsEnd.covers (h : e.IsEnd k) (hlen : 0 < e.len) : e.Covers k := by
  unfold IsEnd at h
  unfold Covers
  omega

/-- `e` is cut into `f` and `g`. -/
structure Cut (e f g : Extent) : Prop where
  left : 0 < f.len
  right : 0 < g.len
  covers : ∀ k, e.Covers k ↔ f.Covers k ∨ g.Covers k
  apart : ∀ k, f.Covers k → ¬ g.Covers k

theorem Cut.symm (h : e.Cut f g) : e.Cut g f where
  left := h.right
  right := h.left
  covers := fun k => (h.covers k).trans or_comm
  apart := fun k hg hf => h.apart k hf hg

/-- A front part and a back part. -/
theorem cut_at {a m n : Nat} (hm : 0 < m) (hn : 0 < n) :
    Cut ⟨a, m + n⟩ ⟨a, m⟩ ⟨a + m, n⟩ := by
  constructor
  · exact hm
  · exact hn
  · intro k
    simp only [Covers]
    omega
  · intro k hf hg
    simp only [Covers] at hf hg
    omega

end Extent

variable {ι : Type}

/-! ## Partial maps -/

section Partial

variable [DecidableEq ι] {β : Type} {m : ι → Option β} {s t : ι} {b d : β}

theorem update_eq_some :
    Function.update m s (some b) t = some d ↔ (t = s ∧ d = b) ∨ (t ≠ s ∧ m t = some d) := by
  by_cases hts : t = s
  · subst hts
    rw [Function.update_self]
    simp [eq_comm]
  · rw [Function.update_of_ne hts]
    simp [hts]

theorem update_none_eq_some : Function.update m s none t = some d ↔ t ≠ s ∧ m t = some d := by
  by_cases hts : t = s
  · subst hts
    rw [Function.update_self]
    simp
  · rw [Function.update_of_ne hts]
    simp [hts]

end Partial

/-! ## Tiles -/

/-- The parts are disjoint and cover `P`. -/
structure Tiles (parts : ι → Option Extent) (P : Nat → Prop) : Prop where
  pos : ∀ s e, parts s = some e → 0 < e.len
  apart : ∀ s t e f k, parts s = some e → parts t = some f → e.Covers k → f.Covers k → s = t
  cover : ∀ k, (∃ s e, parts s = some e ∧ e.Covers k) ↔ P k

namespace Tiles

variable {parts : ι → Option Extent} {P : Nat → Prop} {s t : ι} {e f g : Extent}

theorem empty : Tiles (fun _ : ι => none) fun _ => False where
  pos := fun s e h => nomatch h
  apart := fun s t e f k h => nomatch h
  cover := by simp

/-- The ends of different parts differ. -/
theorem end_unique (h : Tiles parts P) {k : Nat} (hs : parts s = some e) (ht : parts t = some f)
    (he : e.IsEnd k) (hf : f.IsEnd k) : s = t :=
  h.apart s t e f k hs ht (he.covers (h.pos s e hs)) (hf.covers (h.pos t f ht))

variable [DecidableEq ι]

/-- A part is cut, and the other half gets a name of its own. -/
theorem split (h : Tiles parts P) (hs : parts s = some e) (ht : parts t = none)
    (hcut : e.Cut f g) :
    Tiles (Function.update (Function.update parts s (some f)) t (some g)) P := by
  have hst : s ≠ t := by
    rintro rfl
    rw [hs] at ht
    cases ht
  -- every new part lies in an old one
  have hold : ∀ u d, Function.update (Function.update parts s (some f)) t (some g) u = some d →
      (u = t ∧ d = g) ∨ (u = s ∧ d = f) ∨ (u ≠ s ∧ u ≠ t ∧ parts u = some d) := by
    intro u d hu
    rcases update_eq_some.mp hu with hu | ⟨hut, hu⟩
    · exact .inl hu
    rcases update_eq_some.mp hu with hu | ⟨hus, hu⟩
    · exact .inr (.inl hu)
    · exact .inr (.inr ⟨hus, hut, hu⟩)
  have hnews : Function.update (Function.update parts s (some f)) t (some g) s = some f := by
    rw [Function.update_of_ne hst, Function.update_self]
  constructor
  · intro u d hu
    rcases hold u d hu with ⟨_, rfl⟩ | ⟨_, rfl⟩ | ⟨_, _, hu⟩
    · exact hcut.right
    · exact hcut.left
    · exact h.pos u d hu
  · intro u v d d' k hu hv hd hd'
    rcases hold u d hu with ⟨rfl, rfl⟩ | ⟨rfl, rfl⟩ | ⟨hus, hut, hou⟩ <;>
      rcases hold v d' hv with ⟨rfl, rfl⟩ | ⟨rfl, rfl⟩ | ⟨hvs, hvt, hov⟩
    · rfl
    · exact absurd hd (hcut.apart k hd')
    · exact absurd (h.apart s v e d' k hs hov ((hcut.covers k).mpr (.inr hd)) hd').symm hvs
    · exact absurd hd' (hcut.apart k hd)
    · rfl
    · exact h.apart u v e d' k hs hov ((hcut.covers k).mpr (.inl hd)) hd'
    · exact absurd (h.apart u s d e k hou hs hd ((hcut.covers k).mpr (.inr hd'))) hus
    · exact h.apart u v d e k hou hs hd ((hcut.covers k).mpr (.inl hd'))
    · exact h.apart u v d d' k hou hov hd hd'
  · intro k
    rw [← h.cover k]
    constructor
    · rintro ⟨u, d, hu, hd⟩
      rcases hold u d hu with ⟨rfl, rfl⟩ | ⟨rfl, rfl⟩ | ⟨_, _, hu⟩
      · exact ⟨s, e, hs, (hcut.covers k).mpr (.inr hd)⟩
      · exact ⟨u, e, hs, (hcut.covers k).mpr (.inl hd)⟩
      · exact ⟨u, d, hu, hd⟩
    · rintro ⟨u, d, hu, hd⟩
      by_cases hus : u = s
      · subst hus
        obtain rfl := Option.some.inj (hs.symm.trans hu)
        rcases (hcut.covers k).mp hd with hf | hg
        · exact ⟨u, f, hnews, hf⟩
        · exact ⟨t, g, Function.update_self .., hg⟩
      · have hut : u ≠ t := by
          rintro rfl
          rw [ht] at hu
          cases hu
        exact ⟨u, d, by rw [Function.update_of_ne hut, Function.update_of_ne hus, hu], hd⟩

/-- Two parts are joined, and the name of one of them is given up. -/
theorem merge (h : Tiles parts P) (hs : parts s = some f) (ht : parts t = some g) (hst : s ≠ t)
    (hcut : e.Cut f g) :
    Tiles (Function.update (Function.update parts s (some e)) t none) P := by
  have hold : ∀ u d, Function.update (Function.update parts s (some e)) t none u = some d →
      (u = s ∧ d = e) ∨ (u ≠ s ∧ u ≠ t ∧ parts u = some d) := by
    intro u d hu
    obtain ⟨hut, hu⟩ := update_none_eq_some.mp hu
    exact (update_eq_some.mp hu).imp_right fun ⟨hus, hu⟩ => ⟨hus, hut, hu⟩
  have hnews : Function.update (Function.update parts s (some e)) t none s = some e := by
    rw [Function.update_of_ne hst, Function.update_self]
  -- a third part does not meet the joined one
  have hthird : ∀ v d k, v ≠ s → v ≠ t → parts v = some d → d.Covers k → ¬ e.Covers k := by
    intro v d k hvs hvt hv hd he
    rcases (hcut.covers k).mp he with hf | hg
    · exact hvs (h.apart v s d f k hv hs hd hf)
    · exact hvt (h.apart v t d g k hv ht hd hg)
  constructor
  · intro u d hu
    rcases hold u d hu with ⟨_, rfl⟩ | ⟨_, _, hu⟩
    · have hpos : d.Covers f.start := by
        apply (hcut.covers _).mpr
        left
        have := hcut.left
        unfold Extent.Covers
        omega
      unfold Extent.Covers at hpos
      omega
    · exact h.pos u d hu
  · intro u v d d' k hu hv hd hd'
    rcases hold u d hu with ⟨rfl, rfl⟩ | ⟨hus, hut, hou⟩ <;>
      rcases hold v d' hv with ⟨rfl, rfl⟩ | ⟨hvs, hvt, hov⟩
    · rfl
    · exact absurd hd (hthird v d' k hvs hvt hov hd')
    · exact absurd hd' (hthird u d k hus hut hou hd)
    · exact h.apart u v d d' k hou hov hd hd'
  · intro k
    rw [← h.cover k]
    constructor
    · rintro ⟨u, d, hu, hd⟩
      rcases hold u d hu with ⟨rfl, rfl⟩ | ⟨_, _, hu⟩
      · rcases (hcut.covers k).mp hd with hf | hg
        · exact ⟨u, f, hs, hf⟩
        · exact ⟨t, g, ht, hg⟩
      · exact ⟨u, d, hu, hd⟩
    · rintro ⟨u, d, hu, hd⟩
      by_cases hus : u = s
      · subst hus
        obtain rfl := Option.some.inj (hs.symm.trans hu)
        exact ⟨u, e, hnews, (hcut.covers k).mpr (.inl hd)⟩
      by_cases hut : u = t
      · subst hut
        obtain rfl := Option.some.inj (ht.symm.trans hu)
        exact ⟨s, e, hnews, (hcut.covers k).mpr (.inr hd)⟩
      exact ⟨u, d, by rw [Function.update_of_ne hut, Function.update_of_ne hus, hu], hd⟩

/-- A part is added outside of what is covered. -/
theorem add (h : Tiles parts P) (hs : parts s = none) (hlen : 0 < e.len)
    (hout : ∀ k, e.Covers k → ¬ P k) :
    Tiles (Function.update parts s (some e)) fun k => P k ∨ e.Covers k := by
  have hmeet : ∀ v d k, parts v = some d → d.Covers k → ¬ e.Covers k := by
    intro v d k hv hd he
    exact hout k he ((h.cover k).mp ⟨v, d, hv, hd⟩)
  constructor
  · intro u d hu
    rcases update_eq_some.mp hu with ⟨_, rfl⟩ | ⟨_, hu⟩
    · exact hlen
    · exact h.pos u d hu
  · intro u v d d' k hu hv hd hd'
    rcases update_eq_some.mp hu with ⟨rfl, rfl⟩ | ⟨hus, hou⟩ <;>
      rcases update_eq_some.mp hv with ⟨rfl, rfl⟩ | ⟨hvs, hov⟩
    · rfl
    · exact absurd hd (hmeet v d' k hov hd')
    · exact absurd hd' (hmeet u d k hou hd)
    · exact h.apart u v d d' k hou hov hd hd'
  · intro k
    constructor
    · rintro ⟨u, d, hu, hd⟩
      rcases update_eq_some.mp hu with ⟨rfl, rfl⟩ | ⟨_, hu⟩
      · exact .inr hd
      · exact .inl ((h.cover k).mp ⟨u, d, hu, hd⟩)
    · rintro (hk | hk)
      · obtain ⟨u, d, hu, hd⟩ := (h.cover k).mpr hk
        have hus : u ≠ s := by
          rintro rfl
          rw [hs] at hu
          cases hu
        exact ⟨u, d, by rw [Function.update_of_ne hus, hu], hd⟩
      · exact ⟨s, e, Function.update_self .., hk⟩

end Tiles

/-! ## Indexes -/

/-- The map sends every key of a part to the part, and has no other keys. -/
def Indexes {κ : Type} (m : κ → Option ι) (keys : ι → κ → Prop) : Prop :=
  ∀ k s, m k = some s ↔ keys s k

namespace Indexes

variable {κ : Type} [DecidableEq κ] [DecidableEq ι] {m : κ → Option ι}
  {keys keys' : ι → κ → Prop} {s : ι} {a b : κ}

/-- A part gets its two keys. -/
theorem add (h : Indexes m keys) (hs : ∀ k, ¬ keys s k) (hfree : ∀ t, ¬ keys t a ∧ ¬ keys t b)
    (hnew : ∀ k, keys' s k ↔ k = a ∨ k = b) (hkeep : ∀ t, t ≠ s → ∀ k, keys' t k ↔ keys t k) :
    Indexes (Function.update (Function.update m a (some s)) b (some s)) keys' := by
  intro k t
  by_cases hk : k = a ∨ k = b
  · have hval : Function.update (Function.update m a (some s)) b (some s) k = some s := by
      rcases hk with rfl | rfl
      · by_cases hkb : k = b
        · rw [hkb, Function.update_self]
        · rw [Function.update_of_ne hkb, Function.update_self]
      · rw [Function.update_self]
    rw [hval]
    constructor
    · intro hst
      obtain rfl := Option.some.inj hst
      exact (hnew k).mpr hk
    · intro ht
      by_contra hne
      have hts : t ≠ s := fun e => hne (by rw [e])
      have hold := (hkeep t hts k).mp ht
      rcases hk with rfl | rfl
      · exact (hfree t).1 hold
      · exact (hfree t).2 hold
  · have hka : k ≠ a := fun e => hk (.inl e)
    have hkb : k ≠ b := fun e => hk (.inr e)
    rw [Function.update_of_ne hkb, Function.update_of_ne hka, h k t]
    by_cases hts : t = s
    · subst hts
      rw [hnew]
      exact ⟨fun ht => absurd ht (hs k), fun ht => absurd ht hk⟩
    · exact (hkeep t hts k).symm

/-- A part loses its two keys. -/
theorem remove (h : Indexes m keys) (hs : ∀ k, keys s k ↔ k = a ∨ k = b)
    (hnew : ∀ k, ¬ keys' s k) (hkeep : ∀ t, t ≠ s → ∀ k, keys' t k ↔ keys t k) :
    Indexes (Function.update (Function.update m a none) b none) keys' := by
  intro k t
  by_cases hk : k = a ∨ k = b
  · have hval : Function.update (Function.update m a none) b none k = none := by
      by_cases hkb : k = b
      · rw [hkb, Function.update_self]
      · rw [Function.update_of_ne hkb, hk.resolve_right hkb, Function.update_self]
    rw [hval]
    constructor
    · exact fun hst => nomatch hst
    · intro ht
      by_cases hts : t = s
      · subst hts
        exact absurd ht (hnew k)
      · have hmine := (h k s).mpr ((hs k).mpr hk)
        have hthat := (h k t).mpr ((hkeep t hts k).mp ht)
        exact absurd (Option.some.inj (hthat.symm.trans hmine)) hts
  · have hka : k ≠ a := fun e => hk (.inl e)
    have hkb : k ≠ b := fun e => hk (.inr e)
    rw [Function.update_of_ne hkb, Function.update_of_ne hka, h k t]
    by_cases hts : t = s
    · subst hts
      rw [hs]
      exact ⟨fun ht => absurd ht hk, fun ht => absurd ht (hnew k)⟩
    · exact (hkeep t hts k).symm

end Indexes

end WWRaftKV
