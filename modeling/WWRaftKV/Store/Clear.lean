/-
Clearing the skip list, and the empty one.
-/
import WWRaftKV.Store.Erase

namespace WWRaftKV

open Linked

namespace Skiplist

variable {κ ν : Type}

section Loops

variable {s : Skiplist κ ν} {l n a : Nat} {as : List Nat}

/-- The heap without these nodes. -/
def destroyAll (as : List Nat) (s : Skiplist κ ν) : Skiplist κ ν := as.foldl destroyed s

theorem destroyAll_heap (as : List Nat) (s : Skiplist κ ν) (a : Nat) :
    (destroyAll as s).heap a = if a ∈ as then none else s.heap a := by
  induction as generalizing s with
  | nil => simp [destroyAll]
  | cons b as ih =>
    show (destroyAll as (s.destroyed b)).heap a = _
    rw [ih]
    by_cases hb : a = b
    · subst hb
      simp [destroyed]
    · rw [destroyed_heap_of_ne hb]
      simp [hb]

/-- The fields that destroying nodes leaves alone. -/
theorem destroyAll_fields (as : List Nat) (s : Skiplist κ ν) :
    (destroyAll as s).head = s.head ∧ (destroyAll as s).fresh = s.fresh ∧
      (destroyAll as s).maxLevelIndex = s.maxLevelIndex ∧
        (destroyAll as s).currentLevelIndex = s.currentLevelIndex := by
  induction as generalizing s with
  | nil => exact ⟨rfl, rfl, rfl, rfl⟩
  | cons b as ih => exact ih (s.destroyed b)

theorem destroyFrom_spec (hl : Links (s.forward · 0) a as none) (hd : (a :: as).Nodup)
    (hs : ∀ b ∈ a :: as, (s.shape b).isSome = true) (hn : as.length < n) :
    destroyFrom n (some a) s = some (destroyAll (a :: as) s) := by
  induction as generalizing s a n with
  | nil =>
    obtain ⟨n, rfl⟩ := Nat.exists_eq_succ_of_ne_zero (by omega : n ≠ 0)
    have hf : s.forward a 0 = some none := hl
    obtain ⟨x, hx⟩ := Option.isSome_iff_exists.mp (hs a List.mem_cons_self)
    simp [destroyFrom, hf, destroyNode_eq hx, destroyAll]
  | cons b as ih =>
    obtain ⟨n, rfl⟩ := Nat.exists_eq_succ_of_ne_zero (by omega : n ≠ 0)
    rw [List.length_cons] at hn
    have hf : s.forward a 0 = some (some b) := hl.1
    have hne : ∀ c ∈ b :: as, c ≠ a := by
      rintro c hc rfl
      exact (List.nodup_cons.mp hd).1 hc
    obtain ⟨x, hx⟩ := Option.isSome_iff_exists.mp (hs a List.mem_cons_self)
    have hrest := ih (s := s.destroyed a) (a := b) (n := n)
      (hl.2.congr fun c hc => destroyed_forward_of_ne (hne c hc))
      (List.nodup_cons.mp hd).2
      (fun c hc => by
        rw [destroyed_shape_of_ne (hne c hc)]
        exact hs c (List.mem_cons_of_mem _ hc))
      (by omega)
    simp only [destroyFrom, hf, destroyNode_eq hx, Option.bind_eq_bind, Option.bind_some]
    exact hrest

theorem resetHead_spec (hp : ∀ k, l ≤ k → k < l + n → (s.forward s.head k).isSome = true) :
    ∃ s', resetHead l n s = some s' ∧ SameNodes s s' ∧
      (∀ k, l ≤ k → k < l + n → s'.forward s.head k = some none) ∧
        ∀ k, (k < l ∨ l + n ≤ k) → s'.forward s.head k = s.forward s.head k := by
  induction n generalizing l s with
  | zero =>
    refine ⟨s, rfl, SameNodes.refl s, ?_, ?_⟩
    · intro k hk hk'
      omega
    · intro k _
      rfl
  | succ n ih =>
    have hpl := hp l (Nat.le_refl _) (by omega)
    have hsame : ∀ k, k ≠ l → (s.store s.head l none).forward s.head k = s.forward s.head k := by
      intro k hk
      exact store_forward_of_ne (.inr hk)
    obtain ⟨s', hrun, hn, hin, hout⟩ := ih (l := l + 1) (s := s.store s.head l none)
      (fun k hk hk' => by
        rw [store_head, hsame k (by omega)]
        exact hp k (by omega) (by omega))
    rw [store_head] at hin hout
    refine ⟨s', ?_, (sameNodes_store s s.head l none).trans hn, ?_, ?_⟩
    · simp [resetHead, setForward_eq hpl, hrun]
    · intro k hk hk'
      by_cases hke : k = l
      · subst hke
        rw [hout k (by omega), store_forward_self hpl]
      · exact hin k (by omega) (by omega)
    · intro k hk
      rw [hout k (by omega), hsame k (by omega)]

end Loops

section Empty

variable [LinearOrder κ] {s : Skiplist κ ν} {cs : List (Cell κ ν)}

/-- A head whose pointers are all null is the empty list. -/
theorem rep_nil (hhead : ∃ d, s.shape s.head = some (d, s.maxLevelIndex + 1))
    (hlive : ∀ a, (s.shape a).isSome = true → a = s.head) (hold : s.head < s.fresh)
    (hlinks : ∀ l ≤ s.maxLevelIndex, s.forward s.head l = some none)
    (hlevel : s.currentLevelIndex = 0) (hsize : s.size = 0) : s.Rep [] where
  head := hhead
  nodes := by simp
  distinct := by simp
  live := by simpa using hlive
  old := by simpa using hold
  links := hlinks
  sorted := List.Pairwise.nil
  positive := by simp
  low := by simp
  top := .inl hlevel
  bound := by omega
  size := hsize

theorem make_rep [Inhabited κ] [Inhabited ν] (n : Nat) :
    (make (n + 1) : Skiplist κ ν).Rep [] := by
  apply rep_nil
  · exact ⟨default, by simp [shape, make]⟩
  · intro a ha
    by_cases h0 : a = 0
    · exact h0
    · simp [shape, make, Function.update_of_ne h0] at ha
  · exact Nat.zero_lt_one
  · intro l hl
    have hl' : l < n + 1 := Nat.lt_succ_of_le hl
    simp [forward_eq, make, hl']
  · rfl
  · rfl

/-- The loop of `clear` deletes every node of the list. -/
theorem Rep.destroyed (h : s.Rep cs) :
    ∃ cur, s.forward s.head 0 = some cur ∧
      destroyFrom s.size cur s = some (destroyAll (cs.map (·.addr)) s) := by
  have hlinks := h.links 0 (Nat.zero_le _)
  rw [level_zero h.positive] at hlinks
  have hd := List.nodup_cons.mp h.distinct
  have hsome : ∀ b ∈ cs.map (·.addr), (s.shape b).isSome = true := by
    intro b hb
    obtain ⟨c, hc, rfl⟩ := List.mem_map.mp hb
    rw [h.nodes c hc]
    rfl
  have hsize := h.size
  cases cs with
  | nil => exact ⟨none, hlinks, by cases s.size <;> rfl⟩
  | cons c cs =>
    refine ⟨some c.addr, hlinks.1, destroyFrom_spec hlinks.2 hd.2 hsome ?_⟩
    rw [List.length_map, hsize, List.length_cons]
    omega

/-- Only the head is left. -/
theorem Rep.live_destroyAll (h : s.Rep cs) {a : Nat}
    (ha : ((destroyAll (cs.map (·.addr)) s).shape a).isSome = true) : a = s.head := by
  rw [shape, destroyAll_heap] at ha
  by_cases hm : a ∈ cs.map (·.addr)
  · simp [hm] at ha
  · rw [if_neg hm] at ha
    rcases List.mem_cons.mp (h.live a ha) with ha | ha
    · exact ha
    · exact absurd ha hm

theorem Rep.clear (h : s.Rep cs) : ∃ t, s.clear = some t ∧ t.Rep [] := by
  obtain ⟨cur, hcur, hrun⟩ := h.destroyed
  obtain ⟨hhead, hfresh, hmax, hlevel⟩ := destroyAll_fields (cs.map fun c => c.addr) s
  have hlive := fun a => h.live_destroyAll (a := a)
  have hat : (destroyAll (cs.map fun c => c.addr) s).heap s.head = s.heap s.head := by
    rw [destroyAll_heap, if_neg (List.nodup_cons.mp h.distinct).1]
  generalize destroyAll (cs.map fun c => c.addr) s = t at hrun hhead hfresh hmax hlevel hlive hat
  have hfwd : ∀ k, t.forward s.head k = s.forward s.head k := by
    intro k
    rw [forward_eq, forward_eq, hat]
  obtain ⟨d, hshape⟩ := h.head
  have hbound := h.bound
  obtain ⟨t', hreset, hsame, hin, hout⟩ := resetHead_spec (s := t) (l := 0)
    (n := t.currentLevelIndex + 1) (fun k _ hk => by
      rw [hhead, hfwd]
      exact forward_isSome hshape (by omega))
  refine ⟨{ t' with currentLevelIndex := 0, size := 0 }, ?_, ?_⟩
  · simp only [Skiplist.clear, hcur, hrun, hreset, Option.bind_eq_bind, Option.bind_some]
  rw [hhead] at hin hout
  apply rep_nil
  · refine ⟨d, ?_⟩
    show t'.shape t'.head = some (d, t'.maxLevelIndex + 1)
    rw [hsame.shape, hsame.head, hsame.maxLevelIndex, hhead, hmax, ← hshape, shape, shape, hat]
  · intro a ha
    show a = t'.head
    have ha' : (t.shape a).isSome = true := by
      rw [← hsame.shape]
      exact ha
    rw [hsame.head, hhead]
    exact hlive a ha'
  · show t'.head < t'.fresh
    rw [hsame.head, hsame.fresh, hhead, hfresh]
    exact h.old _ List.mem_cons_self
  · intro l hl
    show t'.forward t'.head l = some none
    rw [hsame.head, hhead]
    by_cases hl' : l ≤ s.currentLevelIndex
    · exact hin l (Nat.zero_le _) (by omega)
    · rw [hout l (by omega), hfwd]
      have hl'' : l ≤ s.maxLevelIndex := by
        rw [← hmax, ← hsame.maxLevelIndex]
        exact hl
      have hempty := h.links l hl''
      rw [level_eq_nil] at hempty
      · exact hempty
      · intro c hc
        have hlow := h.low c hc
        omega
  · rfl
  · rfl

end Empty

end Skiplist

end WWRaftKV
