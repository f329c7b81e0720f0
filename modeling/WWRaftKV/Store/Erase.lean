/-
Removal from the skip list.

Both `erase` take the node out of the levels it is on, one from level 0 upwards with the
update list, the other from the top downwards with a scan of every level.  What they leave
behind is the same (`Unlinking`).
-/
import WWRaftKV.Store.Insert

namespace WWRaftKV

open Linked

namespace Skiplist

variable {κ ν : Type}

section Unlink

variable {s s' t : Skiplist κ ν} {p l m n : Nat} {U : Nat → Nat} {A B : Nat → Prop}
  {update : List (Option Nat)}

/-- The node `p` has been taken out behind `U k` on the levels `A`. -/
structure Unlinking (s s' : Skiplist κ ν) (p : Nat) (U : Nat → Nat) (A : Nat → Prop) : Prop
    extends SameNodes s s' where
  prev : ∀ k, A k → s'.forward (U k) k = s.forward p k
  other : ∀ a k, (A k → a ≠ U k) → s'.forward a k = s.forward a k

theorem Unlinking.none (s : Skiplist κ ν) (p : Nat) (U : Nat → Nat) (hA : ∀ k, ¬ A k) :
    Unlinking s s p U A where
  toSameNodes := SameNodes.refl s
  prev := by
    intro k hk
    exact absurd hk (hA k)
  other := by
    intro a k _
    rfl

theorem Unlinking.trans (h : Unlinking s s' p U A) (h' : Unlinking s' t p U B)
    (hne : ∀ k, U k ≠ p) : Unlinking s t p U fun k => A k ∨ B k where
  toSameNodes := h.toSameNodes.trans h'.toSameNodes
  prev := by
    intro k hk
    by_cases hB : B k
    · rw [h'.prev k hB, h.other p k fun _ => (hne k).symm]
    · rw [h'.other (U k) k fun hb => absurd hb hB, h.prev k (hk.resolve_right hB)]
  other := by
    intro a k ha
    rw [h'.other a k fun hb => ha (.inr hb), h.other a k fun hb => ha (.inl hb)]

theorem Unlinking.congr (h : Unlinking s s' p U A) (hA : ∀ k, A k ↔ B k) :
    Unlinking s s' p U B := by
  obtain rfl : A = B := funext fun k => propext (hA k)
  exact h

theorem unlinking_step {next : Option Nat} (hp : s.forward p l = some next)
    (hU : (s.forward (U l) l).isSome = true) :
    Unlinking s (s.store (U l) l next) p U fun k => k = l where
  toSameNodes := sameNodes_store s (U l) l next
  prev := by
    rintro k rfl
    rw [store_forward_self hU, hp]
  other := by
    intro a k ha
    apply store_forward_of_ne
    by_cases hk : k = l
    · exact .inl (hk ▸ ha hk)
    · exact .inr hk

/-! ## By key -/

/-- The loop stops on the first level that the node is not on. -/
theorem unlink_spec (hu : ∀ k, l ≤ k → k < l + n → update[k]? = some (some (U k)))
    (hin : ∀ k, l ≤ k → k < m → s.forward (U k) k = some (some p) ∧
      (s.forward p k).isSome = true)
    (hout : ∀ k, m ≤ k → k < l + n → ∃ q, s.forward (U k) k = some q ∧ q ≠ some p)
    (hm : m ≤ l + n) (hne : ∀ k, U k ≠ p) :
    ∃ s', unlink p update l n s = some s' ∧ Unlinking s s' p U fun k => l ≤ k ∧ k < m := by
  induction n generalizing l s with
  | zero =>
    refine ⟨s, rfl, Unlinking.none s p U ?_⟩
    intro k hk
    omega
  | succ n ih =>
    have hul := hu l (Nat.le_refl _) (by omega)
    by_cases hlm : l < m
    · obtain ⟨hU, hp⟩ := hin l (Nat.le_refl _) hlm
      obtain ⟨next, hnext⟩ := Option.isSome_iff_exists.mp hp
      have hU' : (s.forward (U l) l).isSome = true := by
        rw [hU]
        rfl
      have hstep := unlinking_step (U := U) hnext hU'
      have hsame : ∀ a k, k ≠ l → (s.store (U l) l next).forward a k = s.forward a k := by
        intro a k hk
        exact store_forward_of_ne (.inr hk)
      obtain ⟨s', hrun, hrest⟩ := ih (l := l + 1) (s := s.store (U l) l next)
        (fun k hk hk' => hu k (by omega) (by omega))
        (fun k hk hk' => by
          rw [hsame _ k (by omega), hsame _ k (by omega)]
          exact hin k (by omega) hk')
        (fun k hk hk' => by
          rw [hsame _ k (by omega)]
          exact hout k hk (by omega))
        (by omega)
      refine ⟨s', ?_, (hstep.trans hrest hne).congr ?_⟩
      · simp [unlink, hul, hU, hnext, setForward_eq hU', hrun]
      · intro k
        omega
    · obtain ⟨q, hq, hqp⟩ := hout l (by omega) (by omega)
      refine ⟨s, ?_, Unlinking.none s p U ?_⟩
      · simp [unlink, hul, hq, hqp]
      · intro k hk
        omega

/-! ## By iterator -/

/-- The scan of a level ends in front of the node. -/
theorem seek_spec {a : Nat} {xs ys : List Nat} {e : Option Nat}
    (hl : Links (s.forward · l) a (xs ++ p :: ys) e) (hp : p ∉ xs) (hn : xs.length < n) :
    s.seek p l n a = some (xs.getLastD a) := by
  induction xs generalizing a n with
  | nil =>
    obtain ⟨n, rfl⟩ := Nat.exists_eq_succ_of_ne_zero (by omega : n ≠ 0)
    have hf : s.forward a l = some (some p) := hl.1
    simp [seek, hf]
  | cons x xs ih =>
    rw [List.length_cons] at hn
    obtain ⟨n, rfl⟩ := Nat.exists_eq_succ_of_ne_zero (by omega : n ≠ 0)
    have hf : s.forward a l = some (some x) := hl.1
    have hxp : x ≠ p := by
      rintro rfl
      exact hp List.mem_cons_self
    have hrest := ih hl.2 (fun h => hp (List.mem_cons_of_mem _ h)) (n := n) (by omega)
    rw [List.getLastD_cons, ← hrest]
    simp [seek, hf, hxp]

end Unlink

/-! ## The end of both -/

section Destroy

variable {s : Skiplist κ ν} {c : Cell κ ν} {cs pre post : List (Cell κ ν)} {l : Nat}

/-- The heap without the node. -/
def destroyed (s : Skiplist κ ν) (p : Nat) : Skiplist κ ν :=
  { s with heap := Function.update s.heap p none }

theorem destroyed_heap_of_ne {a p : Nat} (ha : a ≠ p) : (s.destroyed p).heap a = s.heap a :=
  Function.update_of_ne ha _ _

theorem destroyed_forward_of_ne {a p k : Nat} (ha : a ≠ p) :
    (s.destroyed p).forward a k = s.forward a k := by
  rw [forward_eq, forward_eq, destroyed_heap_of_ne ha]

theorem destroyed_shape_of_ne {a p : Nat} (ha : a ≠ p) :
    (s.destroyed p).shape a = s.shape a := by
  rw [shape, shape, destroyed_heap_of_ne ha]

theorem destroyed_shape_self {p : Nat} : (s.destroyed p).shape p = none := by
  simp [shape, destroyed]

theorem destroyNode_eq {p : Nat} {x : (κ × ν) × Nat} (h : s.shape p = some x) :
    s.destroyNode p = some (s.destroyed p) := by
  apply if_pos
  obtain ⟨node, hn, _⟩ := Option.map_eq_some_iff.mp h
  rw [hn]
  rfl

theorem Nodes.destroyed (h : s.Nodes (pre ++ c :: post)) :
    (s.destroyed c.addr).Nodes (pre ++ post) := by
  have hp := perm_insert pre post c s.head
  have hd := List.nodup_cons.mp (hp.nodup_iff.mp h.distinct)
  have hne : ∀ a ∈ s.head :: (pre ++ post).map (·.addr), a ≠ c.addr := by
    rintro a ha rfl
    exact hd.1 ha
  refine ⟨?_, ?_, hd.2, ?_, ?_⟩
  · obtain ⟨d, hs⟩ := h.head
    exact ⟨d, (destroyed_shape_of_ne (hne _ List.mem_cons_self)).trans hs⟩
  · intro d hm
    rw [destroyed_shape_of_ne (hne _ (List.mem_cons_of_mem _ (List.mem_map_of_mem hm)))]
    exact h.nodes d (List.perm_middle.mem_iff.mpr (List.mem_cons_of_mem _ hm))
  · intro a ha
    by_cases hac : a = c.addr
    · rw [hac, destroyed_shape_self] at ha
      cases ha
    · rw [destroyed_shape_of_ne hac] at ha
      rcases List.mem_cons.mp (hp.mem_iff.mp (h.live a ha)) with ha | ha
      · exact absurd ha hac
      · exact ha
  · intro a ha
    exact h.old a (hp.mem_iff.mpr (List.mem_cons_of_mem _ ha))

/-- The highest level that is not empty, or 0. -/
theorem lowerLevel_spec (cs : List (Cell κ ν))
    (hl : ∀ k ≤ l, Links (s.forward · k) s.head (level k cs) none)
    (hlow : ∀ d ∈ cs, d.height ≤ l + 1) :
    ∃ l', s.lowerLevel l = some l' ∧ l' ≤ l ∧ (∀ d ∈ cs, d.height ≤ l' + 1) ∧
      (l' = 0 ∨ ∃ d ∈ cs, d.height = l' + 1) := by
  induction l with
  | zero => exact ⟨0, rfl, Nat.le_refl _, hlow, .inl rfl⟩
  | succ l ih =>
    have hf := (hl (l + 1) (Nat.le_refl _)).first
    cases hlev : level (l + 1) cs with
    | nil =>
      rw [hlev] at hf
      have hlow' : ∀ d ∈ cs, d.height ≤ l + 1 := by
        intro d hd
        apply Nat.le_of_not_lt
        intro hlt
        have hmem : d.addr ∈ level (l + 1) cs := mem_level.mpr ⟨d, hd, hlt, rfl⟩
        rw [hlev] at hmem
        exact absurd hmem List.not_mem_nil
      obtain ⟨l', hrun, hle, hlow'', htop⟩ := ih (fun k hk => hl k (by omega)) hlow'
      refine ⟨l', ?_, by omega, hlow'', htop⟩
      simp only [List.head?_nil, Option.or_none] at hf
      simp [lowerLevel, hf, hrun]
    | cons a as =>
      rw [hlev] at hf
      have hmem : a ∈ level (l + 1) cs := by
        rw [hlev]
        exact List.mem_cons_self
      obtain ⟨d, hd, hlt, _⟩ := mem_level.mp hmem
      have hle := hlow d hd
      refine ⟨l + 1, ?_, Nat.le_refl _, hlow, .inr ⟨d, hd, by omega⟩⟩
      simp only [List.head?_cons, Option.some_or] at hf
      simp [lowerLevel, hf]

end Destroy

/-! ## The cell -/

section Cell

variable [LinearOrder κ] {s s' : Skiplist κ ν} {c : Cell κ ν} {cs pre post : List (Cell κ ν)}
  {l : Nat} {key : κ}

theorem Rep.before_ne (h : s.Rep (pre ++ c :: post)) (k : Nat) : s.before pre k ≠ c.addr := by
  have hd := h.distinct
  rw [List.map_append, List.map_cons] at hd
  have hsplit : ((s.head :: pre.map (·.addr)) ++ c.addr :: post.map (·.addr)).Nodup := hd
  have hmem : s.before pre k ∈ s.head :: pre.map (·.addr) :=
    (level_sublist.cons_cons _).subset (before_mem s pre k)
  exact (List.nodup_append.mp hsplit).2.2 _ hmem _ List.mem_cons_self

theorem Rep.addr_notMem (h : s.Rep (pre ++ c :: post)) :
    c.addr ∉ s.head :: (pre ++ post).map (·.addr) := by
  have hd := (perm_insert pre post c s.head).nodup_iff.mp h.distinct
  exact (List.nodup_cons.mp hd).1

/-- On its own levels the cell is behind the cut. -/
theorem Rep.forward_before_cell (h : s.Rep (pre ++ c :: post)) (hl : l < c.height) :
    s.forward (s.before pre l) l = some (some c.addr) := by
  have hc := h.height_le (c := c) (List.mem_append_right _ List.mem_cons_self)
  rw [h.forward_before (by omega), level_cons_of_lt hl]
  rfl

theorem Rep.forward_cell (h : s.Rep (pre ++ c :: post)) (hl : l < c.height) :
    s.forward c.addr l = some (level l post).head? := by
  have hc := h.height_le (c := c) (List.mem_append_right _ List.mem_cons_self)
  have hlinks := h.links l (by omega)
  rw [level_append, level_cons_of_lt hl] at hlinks
  have hf := (links_append.mp hlinks).2.2.first
  rwa [Option.or_none] at hf

/-- Above them it is not. -/
theorem Rep.forward_before_above (h : s.Rep (pre ++ c :: post)) (hl : c.height ≤ l)
    (hm : l ≤ s.maxLevelIndex) :
    ∃ q, s.forward (s.before pre l) l = some q ∧ q ≠ some c.addr := by
  refine ⟨_, h.forward_before hm, ?_⟩
  rw [level_cons_of_le hl]
  intro he
  have hmem : c.addr ∈ level l post := List.mem_of_mem_head? he
  apply h.addr_notMem
  rw [List.map_append]
  exact List.mem_cons_of_mem _ (List.mem_append_right _ (level_sublist.subset hmem))

theorem Rep.links_erase (h : s.Rep (pre ++ c :: post))
    (hu : Unlinking s s' c.addr (s.before pre) fun k => k < c.height)
    (hl : l ≤ s.maxLevelIndex) :
    Links (s'.forward · l) s.head (level l (pre ++ post)) none := by
  have hlinks := h.links l hl
  have hnodup := h.distinct_level l
  rw [level_append] at hlinks hnodup ⊢
  by_cases hc : l < c.height
  · rw [level_cons_of_lt hc] at hlinks hnodup
    apply hlinks.remove hnodup
    · exact hu.prev l hc
    · intro b hb hne
      exact hu.other b l fun _ => hne
  · rw [level_cons_of_le (Nat.le_of_not_lt hc)] at hlinks
    apply hlinks.congr
    intro b hb
    exact hu.other b l fun hlt => absurd hlt hc

theorem Rep.finishErase (h : s.Rep (pre ++ c :: post))
    (hu : Unlinking s s' c.addr (s.before pre) fun k => k < c.height) :
    ∃ t, s'.finishErase c.addr = some t ∧ t.Rep (pre ++ post) := by
  have hn := h.toNodes.of_sameNodes hu.toSameNodes
  have hn' := hn.destroyed
  have hmem : ∀ d ∈ pre ++ post, d ∈ pre ++ c :: post := by
    intro d hd
    exact List.perm_middle.mem_iff.mpr (List.mem_cons_of_mem _ hd)
  have hlinks : ∀ k ≤ s.maxLevelIndex,
      Links ((s'.destroyed c.addr).forward · k) s'.head (level k (pre ++ post)) none := by
    intro k hk
    rw [hu.head]
    apply (h.links_erase hu hk).congr
    intro b hb
    apply destroyed_forward_of_ne
    rintro rfl
    exact h.addr_notMem ((level_sublist.cons_cons _).subset hb)
  have hcur := hu.currentLevelIndex
  have hbound := h.bound
  obtain ⟨l', hrun, hle, hlow, htop⟩ := lowerLevel_spec (pre ++ post) (s := s'.destroyed c.addr)
    (l := s'.currentLevelIndex)
    (fun k hk => hlinks k (by omega))
    (fun d hd => by
      rw [hcur]
      exact h.low d (hmem d hd))
  have hc := hn.nodes c (List.mem_append_right _ List.mem_cons_self)
  refine ⟨{ s'.destroyed c.addr with currentLevelIndex := l', size := s'.size - 1 }, ?_, ?_⟩
  · simp only [Skiplist.finishErase, destroyNode_eq hc, Option.bind_eq_bind, Option.bind_some]
    have hlevel : (s'.destroyed c.addr).currentLevelIndex = s'.currentLevelIndex := rfl
    rw [hlevel, hrun]
    rfl
  · constructor
    · exact ⟨hn'.head, hn'.nodes, hn'.distinct, hn'.live, hn'.old⟩
    · intro k hk
      apply hlinks
      rw [← hu.maxLevelIndex]
      exact hk
    · exact h.sorted.sublist ((List.Sublist.refl pre).append (List.sublist_cons_self c post))
    · intro d hd
      exact h.positive d (hmem d hd)
    · exact hlow
    · exact htop
    · show l' ≤ s'.maxLevelIndex
      rw [hu.maxLevelIndex]
      omega
    · show s'.size - 1 = _
      rw [hu.size, h.size]
      simp only [List.length_append, List.length_cons]
      omega

/-! ## The two operations -/

/-- `erase(const key_type &)` takes the node out and ends. -/
theorem Rep.eraseKey_unlinks (h : s.Rep (pre ++ c :: post)) (hk : Cuts key pre (c :: post))
    (hc : c.key = key) :
    ∃ s', Unlinking s s' c.addr (s.before pre) (fun k => k < c.height) ∧
      s.eraseKey key = (s'.finishErase c.addr).map fun t => (1, t) := by
  obtain ⟨update, hfind, _, hrec⟩ := h.findWithUpdate hk
  have hhold := h.holding key
  have hcut : atCut key (c :: post) = some c := by simp [atCut, Option.filter, hc]
  have hlow := h.low c (List.mem_append_right _ List.mem_cons_self)
  have hbound := h.bound
  obtain ⟨s', hrun, hu⟩ := unlink_spec (s := s) (p := c.addr) (l := 0)
    (n := s.currentLevelIndex + 1) (m := c.height) (U := s.before pre)
    (fun k _ hk' => hrec k (by omega))
    (fun k _ hk' => ⟨h.forward_before_cell hk', by
      rw [h.forward_cell hk']
      rfl⟩)
    (fun k hk' hk'' => h.forward_before_above hk' (by omega))
    (by omega) h.before_ne
  rw [hcut] at hhold
  refine ⟨s', hu.congr fun k => by omega, ?_⟩
  simp only [Skiplist.eraseKey, hfind, hhold, hrun, Option.bind_eq_bind, Option.bind_some,
    Option.map_some]
  cases s'.finishErase c.addr <;> rfl

/-- `erase(const key_type &)` when the key is there. -/
theorem Rep.eraseKey_some (h : s.Rep (pre ++ c :: post)) (hk : Cuts key pre (c :: post))
    (hc : c.key = key) : ∃ t, s.eraseKey key = some (1, t) ∧ t.Rep (pre ++ post) := by
  obtain ⟨s', hu, herase⟩ := h.eraseKey_unlinks hk hc
  obtain ⟨t, hfin, ht⟩ := h.finishErase hu
  refine ⟨t, ?_, ht⟩
  rw [herase, hfin]
  rfl

theorem Rep.eraseKey_none (h : s.Rep (pre ++ post)) (hk : Cuts key pre post)
    (hnone : atCut key post = none) : s.eraseKey key = some (0, s) := by
  obtain ⟨update, hfind, _⟩ := h.findWithUpdate hk
  have hhold := h.holding key
  rw [hnone] at hhold
  simp only [Skiplist.eraseKey, hfind, hhold, Option.bind_eq_bind, Option.bind_some,
    Option.map_none]

/-- One level of `erase(const_iterator)`, when the levels `A` are done. -/
theorem Rep.bypass (h : s.Rep (pre ++ c :: post)) {A : Nat → Prop}
    (hu : Unlinking s s' c.addr (s.before pre) A) (hA : ¬ A l) (hl : l < c.height) :
    ∃ t, s'.bypass c.addr l = some ((level l post).head?, t) ∧
      Unlinking s t c.addr (s.before pre) fun k => A k ∨ k = l := by
  have hh := h.height_le (c := c) (List.mem_append_right _ List.mem_cons_self)
  have hsame : ∀ a, s'.forward a l = s.forward a l := by
    intro a
    exact hu.other a l fun hAl => absurd hAl hA
  have hlinks : Links (s'.forward · l) s'.head (level l pre ++ c.addr :: level l post) none := by
    rw [hu.head, show (s'.forward · l) = (s.forward · l) from funext hsame,
      ← level_cons_of_lt hl, ← level_append]
    exact h.links l (by omega)
  have hnot : c.addr ∉ level l pre := by
    intro hm
    apply h.addr_notMem
    rw [List.map_append]
    exact List.mem_cons_of_mem _ (List.mem_append_left _ (level_sublist.subset hm))
  have hseek : s'.seek c.addr l s'.rounds s'.head = some (s.before pre l) := by
    rw [seek_spec hlinks hnot, hu.head]
    · rfl
    · have hs := h.size
      have hle := length_level_le l pre
      rw [List.length_append, List.length_cons] at hs
      rw [rounds, hu.size]
      omega
  have hbefore : s'.forward (s.before pre l) l = some (some c.addr) := by
    rw [hsame]
    exact h.forward_before_cell hl
  have hnext : s'.forward c.addr l = some (level l post).head? := by
    rw [hsame]
    exact h.forward_cell hl
  have hsome : (s'.forward (s.before pre l) l).isSome = true := by
    rw [hbefore]
    rfl
  refine ⟨_, ?_, hu.trans (unlinking_step hnext hsome) h.before_ne⟩
  simp only [Skiplist.bypass, hseek, hbefore, hnext, setForward_eq hsome, Option.bind_eq_bind,
    Option.bind_some]

theorem Rep.bypassDown (h : s.Rep (pre ++ c :: post)) (hl : l < c.height)
    (hu : Unlinking s s' c.addr (s.before pre) fun k => l < k ∧ k < c.height) :
    ∃ t, bypassDown c.addr l s' = some t ∧
      Unlinking s t c.addr (s.before pre) fun k => 0 < k ∧ k < c.height := by
  induction l generalizing s' with
  | zero => exact ⟨s', rfl, hu⟩
  | succ l ih =>
    obtain ⟨t, hrun, ht⟩ := h.bypass hu (by omega) hl
    obtain ⟨t', hrun', ht'⟩ := ih (by omega) (ht.congr fun k => by omega)
    refine ⟨t', ?_, ht'⟩
    simp only [Skiplist.bypassDown, hrun, hrun', Option.bind_eq_bind, Option.bind_some]

/-- `erase(const_iterator)` takes the node out and ends. -/
theorem Rep.eraseAt_unlinks (h : s.Rep (pre ++ c :: post)) :
    ∃ s', Unlinking s s' c.addr (s.before pre) (fun k => k < c.height) ∧
      s.eraseAt (some c.addr) =
        (s'.finishErase c.addr).map fun t => (post.head?.map (·.addr), t) := by
  have hc := List.mem_append_right pre (List.mem_cons_self (a := c) (l := post))
  have hpos := h.positive c hc
  obtain ⟨node, hnode, hshape⟩ := Option.map_eq_some_iff.mp (h.nodes c hc)
  have hlen : node.forward.length = c.height := congrArg Prod.snd hshape
  obtain ⟨s', hrun, hs'⟩ := h.bypassDown (l := c.height - 1) (by omega)
    (Unlinking.none s c.addr (s.before pre) (by omega))
  obtain ⟨s'', hrun', hs''⟩ := h.bypass hs' (by omega) hpos
  have hzero : (level 0 post).head? = post.head?.map (·.addr) := by
    rw [level_zero, List.head?_map]
    intro d hd
    exact h.positive d (List.mem_append_right _ (List.mem_cons_of_mem _ hd))
  refine ⟨s'', hs''.congr fun k => by omega, ?_⟩
  simp only [Skiplist.eraseAt, hnode, hlen, hrun, hrun', hzero, Option.bind_eq_bind,
    Option.bind_some]
  cases s''.finishErase c.addr <;> rfl

/-- `erase(const_iterator)` for a cell of the list. -/
theorem Rep.eraseAt (h : s.Rep (pre ++ c :: post)) :
    ∃ t, s.eraseAt (some c.addr) = some (post.head?.map (·.addr), t) ∧ t.Rep (pre ++ post) := by
  obtain ⟨s', hu, herase⟩ := h.eraseAt_unlinks
  obtain ⟨t, hfin, ht⟩ := h.finishErase hu
  refine ⟨t, ?_, ht⟩
  rw [herase, hfin]
  rfl

end Cell

end Skiplist

end WWRaftKV
