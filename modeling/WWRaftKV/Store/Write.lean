/-
Writing a value of the skip list.
-/
import WWRaftKV.Store.Erase

namespace WWRaftKV

namespace Skiplist

variable {κ ν : Type}

/-- A cell without its value. -/
def skeleton (c : Cell κ ν) : Nat × Nat × κ := (c.addr, c.height, c.key)

section Skeleton

variable {s : Skiplist κ ν} {cs cs' : List (Cell κ ν)}
  (hsk : cs'.map skeleton = cs.map skeleton)
include hsk

theorem addrs_of_skeleton : cs'.map (·.addr) = cs.map (·.addr) := by
  have h := congrArg (List.map (·.1)) hsk
  rw [List.map_map, List.map_map] at h
  exact h

theorem level_of_skeleton (l : Nat) : level l cs' = level l cs := by
  have h := congrArg (fun xs => (xs.filter fun x : Nat × Nat × κ => l < x.2.1).map (·.1)) hsk
  simp only [List.filter_map, List.map_map] at h
  exact h

theorem height_of_skeleton {c : Cell κ ν} (hc : c ∈ cs') : ∃ d ∈ cs, d.height = c.height := by
  have hm : skeleton c ∈ cs.map skeleton := by
    rw [← hsk]
    exact List.mem_map_of_mem hc
  obtain ⟨d, hd, he⟩ := List.mem_map.mp hm
  exact ⟨d, hd, congrArg (fun x => x.2.1) he⟩

variable [LinearOrder κ]

theorem sorted_of_skeleton (h : cs.Pairwise fun c d => c.key < d.key) :
    cs'.Pairwise fun c d => c.key < d.key := by
  have hs : (cs.map skeleton).Pairwise fun x y => x.2.2 < y.2.2 := List.pairwise_map.mpr h
  rw [← hsk, List.pairwise_map] at hs
  exact hs

/-- Only values have changed. -/
theorem Rep.of_skeleton {t : Skiplist κ ν} (h : s.Rep cs) (hfwd : t.forward = s.forward)
    (hhead : t.head = s.head) (hfresh : t.fresh = s.fresh)
    (hmax : t.maxLevelIndex = s.maxLevelIndex)
    (hcur : t.currentLevelIndex = s.currentLevelIndex) (hsize : t.size = s.size)
    (hshape : t.shape t.head = s.shape s.head)
    (hnodes : ∀ c ∈ cs', t.shape c.addr = some (c.pair, c.height))
    (hlive : ∀ a, (t.shape a).isSome = (s.shape a).isSome) : t.Rep cs' := by
  have haddrs := addrs_of_skeleton hsk
  constructor
  · constructor
    · rw [hshape, hmax]
      exact h.head
    · exact hnodes
    · rw [hhead, haddrs]
      exact h.distinct
    · intro a ha
      rw [hhead, haddrs]
      apply h.live
      rw [← hlive]
      exact ha
    · rw [hhead, haddrs, hfresh]
      exact h.old
  · intro l hl
    rw [hfwd, hhead, level_of_skeleton hsk]
    apply h.links
    rw [← hmax]
    exact hl
  · exact sorted_of_skeleton hsk h.sorted
  · intro c hc
    obtain ⟨d, hd, he⟩ := height_of_skeleton hsk hc
    rw [← he]
    exact h.positive d hd
  · intro c hc
    obtain ⟨d, hd, he⟩ := height_of_skeleton hsk hc
    rw [← he, hcur]
    exact h.low d hd
  · rw [hcur]
    apply h.top.imp_right
    rintro ⟨c, hc, hh⟩
    obtain ⟨d, hd, he⟩ := height_of_skeleton hsk.symm hc
    exact ⟨d, hd, he.trans hh⟩
  · rw [hcur, hmax]
    exact h.bound
  · have hlen := congrArg List.length hsk
    rw [List.length_map, List.length_map] at hlen
    rw [hsize, hlen]
    exact h.size

end Skeleton

theorem Rep.setValue [LinearOrder κ] {s : Skiplist κ ν} {pre post : List (Cell κ ν)}
    {c : Cell κ ν} (h : s.Rep (pre ++ c :: post)) (value : ν) :
    ∃ t, s.setValue c.addr value = some t ∧ t.Rep (pre ++ { c with value := value } :: post) := by
  have hc := List.mem_append_right pre (List.mem_cons_self (a := c) (l := post))
  obtain ⟨node, hnode, hshape⟩ := Option.map_eq_some_iff.mp (h.nodes c hc)
  have hdata : node.data = c.pair := congrArg Prod.fst hshape
  have hlen : node.forward.length = c.height := congrArg Prod.snd hshape
  let node' : SkipListNode κ ν := { node with data := (node.data.1, value) }
  let t : Skiplist κ ν := { s with heap := Function.update s.heap c.addr (some node') }
  have hof : ∀ a, a ≠ c.addr → t.heap a = s.heap a := by
    intro a ha
    exact Function.update_of_ne ha _ _
  have hself : t.heap c.addr = some node' := Function.update_self _ _ _
  have hne : ∀ a ∈ s.head :: (pre ++ post).map (·.addr), a ≠ c.addr := by
    rintro a ha rfl
    exact h.addr_notMem ha
  refine ⟨t, ?_, ?_⟩
  · simp only [Skiplist.setValue, hnode, Option.bind_eq_bind, Option.bind_some]
    rfl
  apply h.of_skeleton (t := t) _ _ rfl rfl rfl rfl rfl
  · rw [shape, shape, hof _ (hne _ List.mem_cons_self)]
  · intro d hd
    rcases List.mem_cons.mp (List.perm_middle.mem_iff.mp hd) with rfl | hd
    · show t.shape c.addr = _
      rw [shape, hself, Option.map_some]
      simp [node', hdata, hlen, Cell.pair]
    · rw [shape, hof _ (hne _ (List.mem_cons_of_mem _ (List.mem_map_of_mem hd)))]
      exact h.nodes d (List.perm_middle.mem_iff.mpr (List.mem_cons_of_mem _ hd))
  · intro a
    rw [shape, shape]
    by_cases ha : a = c.addr
    · rw [ha, hself, hnode]
      rfl
    · rw [hof a ha]
  · simp [skeleton]
  · funext a l
    rw [forward_eq, forward_eq]
    by_cases ha : a = c.addr
    · rw [ha, hself, hnode]
      rfl
    · rw [hof a ha]

end Skiplist

end WWRaftKV
