/-
The stores of a cluster are replicas of one another.

Consensus and the key-value store meet here.  What the cores hand to their clerks is, on
every node, the beginning of one and the same sequence of entries.  So two clerks that have
executed equally many commands have the same pairs in their stores, and have answered every
command alike, whatever batches the commands came in and whatever reads came between.
-/
import WWRaftKV.Cluster.Commitment
import WWRaftKV.Cluster.Nodes
import WWRaftKV.Node.HandOver
import WWRaftKV.Store.Replica

namespace WWRaftKV

open Raft

namespace Cluster

/-- The steps under which committed entries stay and no commit index moves back. -/
def KeepsReplicas (c : Cluster) (n : Int) (i : Input) : Prop :=
  KeepsCommits c n i ∧ CommitsForward (c.raft n) i

instance (c : Cluster) (n : Int) (i : Input) : Decidable (KeepsReplicas c n i) :=
  inferInstanceAs (Decidable (_ ∧ _))

/-- The terms and commands that node `n` has handed to its clerk, with their indices. -/
def handedCores (c : Cluster) (n : Int) : List (Int × RaftPersistLogEntry) :=
  (c.handedAt n).map fun x => (x.1, x.2.core)

variable {ids : List Int} {c : Cluster} {m n : Int}

theorem Reaches.mono {ok ok' : Cluster → Int → Input → Prop}
    (h : ∀ c n i, ok c n i → ok' c n i) (hr : Reaches ok ids c) : Reaches ok' ids c := by
  obtain ⟨as, hr⟩ := hr
  exact ⟨as, hr.mono fun _ _ hok x hx hl => h _ _ _ (hok x hx hl)⟩

/-- Every node hands the entries over from index 1 on, one after the other. -/
theorem handedAt_indices (hr : Reaches (fun c n i => CommitsForward (c.raft n) i) ids c)
    (n : Int) : (c.handedAt n).map (·.1) = applyWindow 0 (0 + (c.handedAt n).length) := by
  have h0 (a : Int) : InTurn 0 (restart a ids none) [] [] := inTurn_init a ids none
  obtain ⟨v, -, hhanded, -, hv⟩ := (upholds_inTurn 0).cluster h0 hr n
  rw [← hhanded]
  exact hv.indices

theorem mem_handedAt {x : Int × RaftLogEntry} (h : x ∈ c.handedAt n) :
    ∃ s ∈ c.history, s.HandsOver x.1 x.2 := by
  obtain ⟨s, hs, hx⟩ := List.mem_flatMap.mp h
  exact ⟨s, (List.mem_filter.mp hs).1, hx⟩

/-- Where both nodes have handed something over, it is the same. -/
theorem handedCores_getElem? (hm : Membership ids) (hr : Reaches KeepsReplicas ids c) {k : Nat}
    (hk : k < (c.handedCores m).length) (hk' : k < (c.handedCores n).length) :
    (c.handedCores m)[k]? = (c.handedCores n)[k]? := by
  have hforward : Reaches (fun c n i => CommitsForward (c.raft n) i) ids c :=
    hr.mono fun _ _ _ h => h.2
  have hkeeps : Reaches KeepsCommits ids c := hr.mono fun _ _ _ h => h.1
  obtain ⟨w, hw, hcw⟩ := hkeeps.commitInv hm
  have hsafe := hcw.stateMachineSafety hw
  rw [handedCores, List.length_map] at hk hk'
  have hx := List.getElem?_eq_getElem hk
  have hy := List.getElem?_eq_getElem hk'
  have hi := index_of_window (handedAt_indices hforward m) hx
  have hj := index_of_window (handedAt_indices hforward n) hy
  obtain ⟨s, hs, hsx⟩ := mem_handedAt (List.getElem_mem hk)
  obtain ⟨t, ht, hty⟩ := mem_handedAt (List.getElem_mem hk')
  rw [hi] at hsx
  rw [hj] at hty
  have hcore := hsafe s hs t ht _ _ _ hsx hty
  rw [handedCores, handedCores, List.getElem?_map, List.getElem?_map, hx, hy]
  simp only [Option.map_some, hi, hj, hcore]

/-- One of two nodes is behind the other. -/
theorem handedCores_isPrefix (hm : Membership ids) (hr : Reaches KeepsReplicas ids c)
    (hle : (c.handedCores m).length ≤ (c.handedCores n).length) :
    c.handedCores m <+: c.handedCores n := by
  apply List.prefix_iff_getElem?.mpr
  intro k hk
  rw [← handedCores_getElem? hm hr hk (by omega)]
  exact List.getElem?_eq_getElem hk

/-- The commands among what has been handed over. -/
theorem handedCores_commands (c : Cluster) (n : Int) :
    (c.handedCores n).map (·.2.command) = (c.handedAt n).map (·.2.command) := by
  rw [handedCores, List.map_map]
  rfl

/-- Equally long beginnings of what two nodes have handed over are equal. -/
theorem commands_eq (hm : Membership ids) (hr : Reaches KeepsReplicas ids c)
    {cs ds : List Str} (hc : cs <+: (c.handedAt m).map (·.2.command))
    (hd : ds <+: (c.handedAt n).map (·.2.command)) (hlen : cs.length = ds.length) : cs = ds := by
  rw [← handedCores_commands] at hc hd
  rcases Nat.le_total (c.handedCores m).length (c.handedCores n).length with hle | hle
  · have hpre := hc.trans ((handedCores_isPrefix hm hr hle).map _)
    exact (List.prefix_of_prefix_length_le hpre hd (Nat.le_of_eq hlen)).eq_of_length hlen
  · have hpre := hd.trans ((handedCores_isPrefix hm hr hle).map _)
    exact ((List.prefix_of_prefix_length_le hpre hc (Nat.le_of_eq hlen.symm)).eq_of_length
      hlen.symm).symm

end Cluster

namespace RaftClerk

/-- A clerk that has started with an empty store has executed the first commands that its
core has handed to it, and has served reads of present keys between them. -/
structure Executes (handed : List (Int × RaftLogEntry)) (as : List Action) : Prop where
  commands : commands as <+: handed.map (·.2.command)
  reads : Along ReadPresent newStore as

/-- Two nodes whose clerks have executed equally many commands have the same pairs, and
have answered the commands alike. -/
theorem replicas_agree (ids : List Int) (c : Cluster) (hm : Membership ids)
    (hr : Cluster.Reaches Cluster.KeepsReplicas ids c) (m n : Int) (as bs : List Action)
    (ha : Executes (c.handedAt m) as) (hb : Executes (c.handedAt n) bs)
    (hlen : (commands as).length = (commands bs).length) : Agree newStore newStore as bs := by
  have hcs := Cluster.commands_eq hm hr ha.commands hb.commands hlen
  obtain ⟨s, hs⟩ := isStore_new.represents
  obtain ⟨xs, s', hrun, hcodes, hs'⟩ := run_of_readPresent hs ha.reads
  obtain ⟨ys, t', hrun', hcodes', ht'⟩ := run_of_readPresent hs hb.reads
  refine ⟨xs, s', ys, t', hrun, hrun', ?_, ?_⟩
  · apply (KVStore.pairs_eq_iff hs' ht').mpr
    rw [hcs]
  · rw [hcodes, hcodes', hcs]

/-- Nodes 0 and 1 have executed the one write that is committed, and node 0 has served a
read of it. -/
theorem replicas_agree_writeCommitted :
    ∃ c, Cluster.Reaches Cluster.KeepsReplicas [0, 1, 2] c ∧
      Executes (c.handedAt 0) [putA, getA] ∧ Executes (c.handedAt 1) [putA] ∧
        Agree newStore newStore [putA, getA] [putA] := by
  obtain ⟨c, hr, hp⟩ := Cluster.Reaches.of_exec Cluster.KeepsReplicas [0, 1, 2]
    Cluster.writeCommitted
    (fun c => decide ((c.handedAt 0).map (·.2.command) = commands [putA, getA] ∧
      (c.handedAt 1).map (·.2.command) = commands [putA])) (by decide +kernel)
  obtain ⟨h0, h1⟩ := of_decide_eq_true hp
  have ha : Executes (c.handedAt 0) [putA, getA] := by
    refine ⟨h0 ▸ List.prefix_refl _, trivial, fun x t hact => ⟨?_, fun _ _ _ => trivial⟩⟩
    have hcontains : (act newStore putA).bind (·.2.contains ['a']) = some true := by decide
    rw [hact] at hcontains
    exact hcontains
  have hb : Executes (c.handedAt 1) [putA] :=
    ⟨h1 ▸ List.prefix_refl _, trivial, fun _ _ _ => trivial⟩
  exact ⟨c, hr, ha, hb, replicas_agree [0, 1, 2] c ⟨by decide, by decide⟩ hr 0 1 _ _ ha hb rfl⟩

end RaftClerk

end WWRaftKV
