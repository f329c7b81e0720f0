/-
Insertion into the skip list.
-/
import WWRaftKV.Store.Search

namespace WWRaftKV

open Linked

namespace Skiplist

variable {κ ν : Type}

/-! ## Writes of pointers -/

/-- Only pointers have been written. -/
structure SameNodes (s s' : Skiplist κ ν) : Prop where
  shape : s'.shape = s.shape
  head : s'.head = s.head
  fresh : s'.fresh = s.fresh
  maxLevelIndex : s'.maxLevelIndex = s.maxLevelIndex
  currentLevelIndex : s'.currentLevelIndex = s.currentLevelIndex
  size : s'.size = s.size

section Pointers

variable {s s' t : Skiplist κ ν} {cs : List (Cell κ ν)} {p l n a k : Nat} {q : Option Nat}

theorem SameNodes.refl (s : Skiplist κ ν) : SameNodes s s := ⟨rfl, rfl, rfl, rfl, rfl, rfl⟩

theorem SameNodes.trans (h : SameNodes s s') (h' : SameNodes s' t) : SameNodes s t where
  shape := h'.shape.trans h.shape
  head := h'.head.trans h.head
  fresh := h'.fresh.trans h.fresh
  maxLevelIndex := h'.maxLevelIndex.trans h.maxLevelIndex
  currentLevelIndex := h'.currentLevelIndex.trans h.currentLevelIndex
  size := h'.size.trans h.size

theorem sameNodes_store (s : Skiplist κ ν) (p l : Nat) (q : Option Nat) :
    SameNodes s (s.store p l q) := ⟨store_shape, rfl, rfl, rfl, rfl, rfl⟩

theorem Nodes.of_sameNodes (h : s.Nodes cs) (hs : SameNodes s s') : s'.Nodes cs where
  head := by
    rw [hs.shape, hs.head, hs.maxLevelIndex]
    exact h.head
  nodes := by
    rw [hs.shape]
    exact h.nodes
  distinct := by
    rw [hs.head]
    exact h.distinct
  live := by
    rw [hs.shape, hs.head]
    exact h.live
  old := by
    rw [hs.head, hs.fresh]
    exact h.old

/-- Which pointers can be read depends on the nodes only. -/
theorem SameNodes.isSome (h : SameNodes s s') :
    (s'.forward a k).isSome = (s.forward a k).isSome := by
  rw [Bool.eq_iff_iff, forward_isSome_iff, forward_isSome_iff, h.shape]

end Pointers

section Link

variable {s : Skiplist κ ν} {p l n : Nat} {U : Nat → Nat} {update : List (Option Nat)}

/-- The pointers after the node `p` has been put behind `U k` on the levels from `l` to
`m`. -/
structure Linking (s s' : Skiplist κ ν) (p : Nat) (U : Nat → Nat) (l m : Nat) : Prop
    extends SameNodes s s' where
  node : ∀ k, l ≤ k → k < m → s'.forward p k = s.forward (U k) k
  prev : ∀ k, l ≤ k → k < m → s'.forward (U k) k = some (some p)
  other : ∀ a k, (l ≤ k → k < m → a ≠ p ∧ a ≠ U k) → s'.forward a k = s.forward a k

/-- One round of the loop. -/
theorem linking_step (hp : (s.forward p l).isSome = true)
    (hU : (s.forward (U l) l).isSome = true) (hne : U l ≠ p) {next : Option Nat}
    (hnext : s.forward (U l) l = some next) :
    Linking s ((s.store p l next).store (U l) l (some p)) p U l (l + 1) := by
  have hU' : ((s.store p l next).forward (U l) l).isSome = true := by
    rw [(sameNodes_store s p l next).isSome]
    exact hU
  refine ⟨(sameNodes_store s p l next).trans (sameNodes_store _ _ _ _), ?_, ?_, ?_⟩
  · intro k hk hk'
    obtain rfl : k = l := by omega
    rw [store_forward_of_ne (.inl hne.symm), store_forward_self hp, hnext]
  · intro k hk hk'
    obtain rfl : k = l := by omega
    exact store_forward_self hU'
  · intro a k ha
    by_cases hk : k = l
    · subst hk
      obtain ⟨hap, haU⟩ := ha (Nat.le_refl _) (by omega)
      rw [store_forward_of_ne (.inl haU), store_forward_of_ne (.inl hap)]
    · rw [store_forward_of_ne (.inr hk), store_forward_of_ne (.inr hk)]

theorem link_spec (hu : ∀ k, l ≤ k → k < l + n → update[k]? = some (some (U k)))
    (hp : ∀ k, l ≤ k → k < l + n → (s.forward p k).isSome = true)
    (hU : ∀ k, l ≤ k → k < l + n → (s.forward (U k) k).isSome = true) (hne : ∀ k, U k ≠ p) :
    ∃ s', link p update l n s = some s' ∧ Linking s s' p U l (l + n) := by
  induction n generalizing l s with
  | zero =>
    refine ⟨s, rfl, SameNodes.refl s, ?_, ?_, ?_⟩
    · intro k hk hk'
      omega
    · intro k hk hk'
      omega
    · intro a k _
      rfl
  | succ n ih =>
    have hpl := hp l (Nat.le_refl _) (by omega)
    have hUl := hU l (Nat.le_refl _) (by omega)
    obtain ⟨next, hnext⟩ := Option.isSome_iff_exists.mp hUl
    have hstep := linking_step hpl hUl (hne l) hnext
    have hsame := hstep.toSameNodes
    obtain ⟨s', hrun, hl⟩ := ih (l := l + 1) (s := (s.store p l next).store (U l) l (some p))
      (fun k hk hk' => hu k (by omega) (by omega))
      (fun k hk hk' => by rw [hsame.isSome]; exact hp k (by omega) (by omega))
      (fun k hk hk' => by rw [hsame.isSome]; exact hU k (by omega) (by omega))
    have hset : (s.store p l next).setForward (U l) l (some p) =
        some ((s.store p l next).store (U l) l (some p)) := by
      apply setForward_eq
      rw [(sameNodes_store s p l next).isSome]
      exact hUl
    refine ⟨s', ?_, hsame.trans hl.toSameNodes, ?_, ?_, ?_⟩
    · simp [link, hu l (Nat.le_refl _) (by omega), hnext, setForward_eq hpl, hset, hrun]
    · intro k hk hk'
      by_cases hke : k = l
      · subst hke
        rw [hl.other p k (by omega)]
        exact hstep.node k (Nat.le_refl _) (by omega)
      · rw [hl.node k (by omega) (by omega)]
        apply hstep.other
        omega
    · intro k hk hk'
      by_cases hke : k = l
      · subst hke
        rw [hl.other (U k) k (by omega)]
        exact hstep.prev k (Nat.le_refl _) (by omega)
      · exact hl.prev k (by omega) (by omega)
    · intro a k ha
      rw [hl.other a k (fun hk hk' => ha (by omega) (by omega))]
      apply hstep.other
      intro hk hk'
      exact ha hk (by omega)

end Link

/-! ## The level of a new node -/

theorem randomLevelFrom_bounds (m l : Nat) (draws : List Bool) :
    l ≤ randomLevelFrom m l draws ∧ randomLevelFrom m l draws ≤ max l m := by
  induction draws generalizing l with
  | nil =>
    simp only [randomLevelFrom]
    omega
  | cons draw draws ih =>
    simp only [randomLevelFrom]
    split
    · have h := ih (l + 1)
      omega
    · omega

theorem randomLevel_bounds (s : Skiplist κ ν) (draws : List Bool) :
    s.randomLevel draws - 1 ≤ s.maxLevelIndex := by
  have h := randomLevelFrom_bounds s.maxLevelIndex 1 draws
  unfold randomLevel
  omega

section Pad

variable {s : Skiplist κ ν} {pre : List (Cell κ ν)} {l n : Nat} {update : List (Option Nat)}

/-- The levels above the current one get the head. -/
theorem padUpdate_spec (hr : Recorded s pre l update) (hb : ∀ k, l ≤ k → s.before pre k = s.head)
    (hn : l + n ≤ s.maxLevelIndex + 1) :
    ∃ update', padUpdate s.head l n update = some update' ∧ Recorded s pre (l + n) update' := by
  induction n generalizing l update with
  | zero => exact ⟨update, rfl, hr⟩
  | succ n ih =>
    obtain ⟨hlen, hrec⟩ := hr
    have hr' : Recorded s pre (l + 1) (update.set l (some s.head)) := by
      constructor
      · rw [List.length_set]
        exact hlen
      · intro k hk
        by_cases hke : k = l
        · subst hke
          rw [List.getElem?_set_self (by omega), hb k (Nat.le_refl _)]
        · rw [List.getElem?_set_ne (by omega)]
          exact hrec k (by omega)
    obtain ⟨update', hrun, hrec'⟩ := ih hr' (fun k hk => hb k (by omega)) (by omega)
    refine ⟨update', ?_, ?_⟩
    · simp [padUpdate, setUpdate_eq (by omega : l < update.length), hrun]
    · rwa [show l + (n + 1) = l + 1 + n by omega]

end Pad

/-! ## The new node -/

section Create

variable {s s' : Skiplist κ ν} {cs pre post : List (Cell κ ν)} {pair : κ × ν} {m a k : Nat}

/-- The list with a node that nothing points to yet. -/
def raised (s : Skiplist κ ν) (pair : κ × ν) (m : Nat) : Skiplist κ ν :=
  { s.createNode pair m with currentLevelIndex := max s.currentLevelIndex m }

theorem raised_heap_of_ne (ha : a ≠ s.fresh) : (s.raised pair m).heap a = s.heap a :=
  Function.update_of_ne ha _ _

theorem raised_heap_fresh : (s.raised pair m).heap s.fresh =
    some { data := pair, forward := List.replicate (m + 1) none } := Function.update_self _ _ _

theorem raised_forward_of_ne (ha : a ≠ s.fresh) :
    (s.raised pair m).forward a k = s.forward a k := by
  rw [forward_eq, forward_eq, raised_heap_of_ne ha]

theorem raised_shape_of_ne (ha : a ≠ s.fresh) : (s.raised pair m).shape a = s.shape a := by
  rw [shape, shape, raised_heap_of_ne ha]

theorem raised_shape_fresh : (s.raised pair m).shape s.fresh = some (pair, m + 1) := by
  rw [shape, raised_heap_fresh]
  simp

theorem Nodes.ne_fresh (h : s.Nodes cs) (ha : a ∈ s.head :: cs.map (·.addr)) : a ≠ s.fresh := by
  have hlt := h.old a ha
  omega

theorem perm_insert (pre post : List (Cell κ ν)) (c : Cell κ ν) (a : Nat) :
    (a :: (pre ++ c :: post).map (·.addr)).Perm
      (c.addr :: a :: (pre ++ post).map (·.addr)) := by
  have hp : (pre ++ c :: post).Perm (c :: (pre ++ post)) := List.perm_middle
  exact ((hp.map (·.addr)).cons a).trans (List.Perm.swap _ _ _)

theorem Nodes.raised (h : s.Nodes (pre ++ post)) (m : Nat) (key : κ) (value : ν) :
    (s.raised (key, value) m).Nodes
      (pre ++ { addr := s.fresh, height := m + 1, key := key, value := value } :: post) where
  head := by
    obtain ⟨d, hd⟩ := h.head
    exact ⟨d, (raised_shape_of_ne (h.ne_fresh List.mem_cons_self)).trans hd⟩
  nodes := by
    intro c hc
    have hmem := List.perm_middle.mem_iff.mp hc
    rcases List.mem_cons.mp hmem with rfl | hc
    · exact raised_shape_fresh
    · rw [raised_shape_of_ne (h.ne_fresh (List.mem_cons_of_mem _ (List.mem_map_of_mem hc)))]
      exact h.nodes c hc
  distinct := by
    apply (perm_insert _ _ _ _).nodup_iff.mpr
    rw [List.nodup_cons]
    constructor
    · intro hm
      exact h.ne_fresh hm rfl
    · exact h.distinct
  live := by
    intro a ha
    apply (perm_insert _ _ _ _).mem_iff.mpr
    by_cases hf : a = s.fresh
    · rw [hf]
      exact List.mem_cons_self
    · rw [raised_shape_of_ne hf] at ha
      exact List.mem_cons_of_mem _ (h.live a ha)
  old := by
    intro a ha
    show a < s.fresh + 1
    rcases List.mem_cons.mp ((perm_insert _ _ _ _).mem_iff.mp ha) with rfl | ha
    · exact Nat.lt_succ_self _
    · have hlt := h.old a ha
      omega

theorem before_mem_addrs (s : Skiplist κ ν) (pre post : List (Cell κ ν)) (k : Nat) :
    s.before pre k ∈ s.head :: (pre ++ post).map (·.addr) := by
  have hsub : (level k pre).Sublist ((pre ++ post).map (·.addr)) := by
    rw [List.map_append]
    exact level_sublist.trans (List.sublist_append_left _ _)
  exact (hsub.cons_cons _).subset (before_mem s pre k)

variable [LinearOrder κ] {key : κ} {value : ν} {update : List (Option Nat)}

theorem Rep.links_insert (h : s.Rep (pre ++ post))
    (hl : Linking (s.raised (key, value) m) s' s.fresh (s.before pre) 0 (m + 1)) {l : Nat}
    (hlm : l ≤ s.maxLevelIndex) : Links (s'.forward · l) s.head
      (level l (pre ++ { addr := s.fresh, height := m + 1, key := key, value := value } :: post))
      none := by
  have hlinks := h.links l hlm
  have hnodup := h.distinct_level l
  have hold : ∀ b ∈ s.head :: level l (pre ++ post), b ≠ s.fresh := by
    intro b hb
    exact h.ne_fresh ((level_sublist.cons_cons _).subset hb)
  rw [level_append] at hlinks hnodup hold ⊢
  by_cases hl' : l ≤ m
  · rw [level_cons_of_lt (Nat.lt_succ_of_le hl')]
    have hU := h.ne_fresh (before_mem_addrs s pre post l)
    apply hlinks.insert hnodup
    · show s'.forward s.fresh l = s.forward (s.before pre l) l
      rw [hl.node l (Nat.zero_le _) (by omega), raised_forward_of_ne hU]
    · exact hl.prev l (Nat.zero_le _) (by omega)
    · intro b hb hne
      show s'.forward b l = s.forward b l
      rw [hl.other b l (fun _ _ => ⟨hold b hb, hne⟩), raised_forward_of_ne (hold b hb)]
  · rw [level_cons_of_le (by simp only; omega)]
    apply hlinks.congr
    intro b hb
    show s'.forward b l = s.forward b l
    rw [hl.other b l (by omega), raised_forward_of_ne (hold b hb)]

theorem pairwise_insert {c : Cell κ ν} (hs : (pre ++ post).Pairwise fun c d => c.key < d.key)
    (hpre : ∀ d ∈ pre, d.key < c.key) (hpost : ∀ d ∈ post, c.key < d.key) :
    (pre ++ c :: post).Pairwise fun c d => c.key < d.key := by
  obtain ⟨h1, h2, h3⟩ := List.pairwise_append.mp hs
  apply List.pairwise_append.mpr
  refine ⟨h1, List.pairwise_cons.mpr ⟨hpost, h2⟩, ?_⟩
  intro d hd e he
  rcases List.mem_cons.mp he with rfl | he
  · exact hpre d hd
  · exact h3 d hd e he

/-- The list after the node has been linked and counted. -/
theorem Rep.inserted (h : s.Rep (pre ++ post)) (hm : m ≤ s.maxLevelIndex)
    (hl : Linking (s.raised (key, value) m) s' s.fresh (s.before pre) 0 (m + 1))
    (hpre : ∀ d ∈ pre, d.key < key) (hpost : ∀ d ∈ post, key < d.key) :
    Rep { s' with size := s'.size + 1 }
      (pre ++ { addr := s.fresh, height := m + 1, key := key, value := value } :: post) := by
  have hn := (h.toNodes.raised m key value).of_sameNodes
    hl.toSameNodes
  have hcur : s'.currentLevelIndex = max s.currentLevelIndex m := hl.currentLevelIndex
  have hmem : ∀ d ∈ pre ++ { addr := s.fresh, height := m + 1, key := key, value := value } ::
      post, d.height = m + 1 ∨ d ∈ pre ++ post := by
    intro d hd
    rcases List.mem_cons.mp (List.perm_middle.mem_iff.mp hd) with rfl | hd
    · exact .inl rfl
    · exact .inr hd
  constructor
  · exact ⟨hn.head, hn.nodes, hn.distinct, hn.live, hn.old⟩
  · intro l hlm
    show Links (s'.forward · l) s'.head _ none
    rw [show s'.head = s.head from hl.head]
    rw [show s'.maxLevelIndex = s.maxLevelIndex from hl.maxLevelIndex] at hlm
    exact h.links_insert hl hlm
  · exact pairwise_insert h.sorted hpre hpost
  · intro d hd
    rcases hmem d hd with hd | hd
    · omega
    · exact h.positive d hd
  · intro d hd
    show d.height ≤ s'.currentLevelIndex + 1
    rcases hmem d hd with hd | hd
    · omega
    · have hlow := h.low d hd
      omega
  · show s'.currentLevelIndex = 0 ∨ _
    by_cases hmax : m ≤ s.currentLevelIndex
    · rw [hcur, Nat.max_eq_left hmax]
      apply h.top.imp_right
      rintro ⟨d, hd, hh⟩
      exact ⟨d, List.perm_middle.mem_iff.mpr (List.mem_cons_of_mem _ hd), hh⟩
    · rw [hcur, Nat.max_eq_right (by omega)]
      exact .inr ⟨_, List.perm_middle.mem_iff.mpr List.mem_cons_self, rfl⟩
  · show s'.currentLevelIndex ≤ s'.maxLevelIndex
    rw [show s'.maxLevelIndex = s.maxLevelIndex from hl.maxLevelIndex]
    have hb := h.bound
    omega
  · show s'.size + 1 = _
    rw [show s'.size = s.size from hl.size, h.size]
    simp only [List.length_append, List.length_cons]
    omega

theorem Rep.raiseLevel (h : s.Rep (pre ++ post)) (hm : m ≤ s.maxLevelIndex) (pair : κ × ν)
    (hu : Recorded s pre (s.currentLevelIndex + 1) update) :
    ∃ update', (s.createNode pair m).raiseLevel m update = some (update', s.raised pair m) ∧
      Recorded s pre (m + 1) update' := by
  have hlevel : (s.createNode pair m).currentLevelIndex = s.currentLevelIndex := rfl
  unfold Skiplist.raiseLevel raised
  by_cases hgt : m > s.currentLevelIndex
  · obtain ⟨update', hrun, hrec⟩ := padUpdate_spec (n := m - s.currentLevelIndex) hu
      (fun k hk => h.before_above hk) (by omega)
    refine ⟨update', ?_, ?_⟩
    · have hrun' : padUpdate (s.createNode pair m).head (s.currentLevelIndex + 1)
          (m - s.currentLevelIndex) update = some update' := hrun
      rw [hlevel, if_pos hgt, hrun', Nat.max_eq_right (by omega)]
      rfl
    · rwa [show s.currentLevelIndex + 1 + (m - s.currentLevelIndex) = m + 1 by omega] at hrec
  · refine ⟨update, ?_, hu.1, ?_⟩
    · rw [hlevel, if_neg hgt, Nat.max_eq_left (by omega)]
      rfl
    · intro k hk
      exact hu.2 k (by omega)

/-- A key that is not in the list is put in at its cut. -/
theorem Rep.createAndInsert (h : s.Rep (pre ++ post)) (hk : Cuts key pre post)
    (hnone : atCut key post = none) (value : ν) (draws : List Bool)
    (hu : Recorded s pre (s.currentLevelIndex + 1) update) :
    ∃ c s', s.createAndInsert (key, value) draws update = some (c.addr, s') ∧
      c.pair = (key, value) ∧ s'.Rep (pre ++ c :: post) := by
  have hm := randomLevel_bounds s draws
  generalize hmdef : s.randomLevel draws - 1 = m at hm
  obtain ⟨update', hraise, hrec⟩ := h.raiseLevel hm (key, value) hu
  obtain ⟨s', hrun, hl⟩ := link_spec (s := s.raised (key, value) m) (p := s.fresh) (l := 0)
    (n := m + 1) (U := s.before pre)
    (fun k _ hk => hrec.2 k (by omega))
    (fun k _ hk => forward_isSome raised_shape_fresh (by omega))
    (fun k _ hk => by
      rw [raised_forward_of_ne (h.ne_fresh (before_mem_addrs s pre post k))]
      exact h.forward_before_isSome (by omega))
    (fun k => h.ne_fresh (before_mem_addrs s pre post k))
  rw [Nat.zero_add] at hl
  refine ⟨{ addr := s.fresh, height := m + 1, key := key, value := value },
    { s' with size := s'.size + 1 }, ?_, rfl, ?_⟩
  · simp only [Skiplist.createAndInsert, hmdef, hraise, hrun, Option.bind_eq_bind,
      Option.bind_some]
  · apply h.inserted hm hl hk.smaller
    intro d hd
    have hle := hk.rest d hd
    apply lt_of_le_of_ne hle
    intro he
    cases post with
    | nil => exact absurd hd List.not_mem_nil
    | cons e post =>
      have hne : e.key ≠ key := by simpa [atCut, Option.filter] using hnone
      have hlt : ∀ x ∈ post, e.key < x.key :=
        (List.pairwise_cons.mp (List.pairwise_append.mp h.sorted).2.1).1
      have hee := hk.rest e List.mem_cons_self
      rcases List.mem_cons.mp hd with rfl | hd
      · exact hne he.symm
      · exact absurd (he ▸ hlt d hd) (not_lt.mpr hee)

end Create

end Skiplist

end WWRaftKV
