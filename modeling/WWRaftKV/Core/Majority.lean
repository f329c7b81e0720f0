/-
The commit rule of a leader.

`_HandleAppendEntriesResponse` sorts one list that holds the leader twice, once with its
last index and once with the match index 0 that its own peer keeps, and reads the list
in the middle.  The 0 takes the first place, and the middle of the other values is what
the rule asks for.
-/
import WWRaftKV.General.Quorum
import WWRaftKV.Core.Raft

namespace WWRaftKV

namespace Raft

/-- The index up to which the leader knows the log of a node: its own last index, and
the match index of every other node. -/
def heldIndex (r : Raft) (p : RaftPeer) : Int :=
  if p.id = r.id then r.lastLogIndex else p.matchIndex

/-- The number of nodes that hold index `i`. -/
def holders (r : Raft) (i : Int) : Nat := r.peers.countP fun p => decide (i ≤ r.heldIndex p)

/-- The values that `_HandleAppendEntriesResponse` sorts. -/
def matchIndexes (r : Raft) : List Int := r.lastLogIndex :: r.peers.map (·.matchIndex)

theorem majorityMatch_isGreatest_middle (r : Raft) :
    IsGreatest {i | r.peers.length / 2 + 1 ≤ r.matchIndexes.countP fun x => decide (i ≤ x)}
      r.majorityMatch := by
  have h := Quorum.middle_isGreatest r.matchIndexes (List.cons_ne_nil _ _)
  have hlen : r.matchIndexes.length = r.peers.length + 1 := by
    rw [matchIndexes, List.length_cons, List.length_map]
  have hhalf : r.matchIndexes.length - r.matchIndexes.length / 2 = r.peers.length / 2 + 1 := by
    omega
  rw [hhalf] at h
  show IsGreatest _ ((r.matchIndexes.insertionSort (· ≤ ·)).getD
    ((r.matchIndexes.insertionSort (· ≤ ·)).length / 2) 0)
  rw [(List.perm_insertionSort (· ≤ ·) r.matchIndexes).length_eq]
  exact h

/-- Without the peer of the leader itself the match indexes are what the others hold. -/
theorem countP_others {r : Raft} {ps : List RaftPeer} (h : ∀ p ∈ ps, p.id ≠ r.id) (i : Int) :
    (ps.map (·.matchIndex)).countP (fun x => decide (i ≤ x)) =
      ps.countP fun p => decide (i ≤ r.heldIndex p) := by
  rw [List.countP_map]
  refine List.countP_congr fun p hp => ?_
  show decide (i ≤ p.matchIndex) = true ↔ _
  rw [heldIndex, if_neg (h p hp)]

/-- The list that is sorted counts the leader once more, at the match index of its own
peer. -/
theorem countP_matchIndexes {r : Raft} {p : RaftPeer} (hids : (r.peers.map (·.id)).Nodup)
    (hp : p ∈ r.peers) (hid : p.id = r.id) (i : Int) :
    r.matchIndexes.countP (fun x => decide (i ≤ x)) =
      r.holders i + if i ≤ p.matchIndex then 1 else 0 := by
  obtain ⟨ps, qs, hpeers⟩ := List.append_of_mem hp
  rw [hpeers, List.map_append, List.map_cons] at hids
  have hnew := List.nodup_middle.mp hids
  rw [List.nodup_cons, ← List.map_append] at hnew
  have hother : ∀ q ∈ ps ++ qs, q.id ≠ r.id := fun q hq hqid =>
    hnew.1 (hid ▸ hqid ▸ List.mem_map_of_mem hq)
  have hps := countP_others (fun q hq => hother q (List.mem_append_left qs hq)) i
  have hqs := countP_others (fun q hq => hother q (List.mem_append_right ps hq)) i
  rw [matchIndexes, holders, hpeers, List.map_append, List.map_cons, List.countP_cons,
    List.countP_append, List.countP_cons, hps, hqs, List.countP_append, List.countP_cons,
    heldIndex, if_pos hid]
  simp only [decide_eq_true_iff]
  omega

/-- The majority index is exact: of all indices it is the greatest one that more than half
of the nodes hold. -/
theorem majorityMatch_isGreatest (r : Raft) (hids : (r.peers.map (·.id)).Nodup)
    (hself : ∃ p ∈ r.peers, p.id = r.id ∧ p.matchIndex = 0)
    (hothers : ∀ p ∈ r.peers, p.id ≠ r.id → 0 ≤ p.matchIndex) (hlast : 0 ≤ r.lastLogIndex) :
    IsGreatest {i | r.peers.length / 2 + 1 ≤ r.holders i} r.majorityMatch := by
  obtain ⟨p, hp, hid, hzero⟩ := hself
  have hcount := countP_matchIndexes hids hp hid
  rw [hzero] at hcount
  have hall : r.holders 0 = r.peers.length := by
    refine List.countP_eq_length.mpr fun q hq => ?_
    rw [decide_eq_true_iff, heldIndex]
    split
    next => exact hlast
    next hne => exact hothers q hq hne
  have hpos : 0 < r.peers.length := List.length_pos_of_mem hp
  obtain ⟨hmid, hbest⟩ := r.majorityMatch_isGreatest_middle
  have hnonneg : 0 ≤ r.majorityMatch := by
    refine hbest ?_
    show r.peers.length / 2 + 1 ≤ _
    rw [hcount, hall]
    omega
  constructor
  · show r.peers.length / 2 + 1 ≤ r.holders r.majorityMatch
    have hmid : r.peers.length / 2 + 1 ≤ _ := hmid
    rw [hcount] at hmid
    by_cases hz : r.majorityMatch ≤ 0
    · rw [show r.majorityMatch = 0 by omega, hall]
      omega
    · rw [if_neg hz] at hmid
      exact hmid
  · intro i hi
    refine hbest ?_
    show r.peers.length / 2 + 1 ≤ _
    rw [hcount]
    exact Nat.le_trans hi (Nat.le_add_right _ _)

/-- A leader of four nodes with last index 7, whose peers hold 7, 4 and 2. -/
theorem majorityMatch_isGreatest_four :
    ∃ r : Raft, r.lastLogIndex = 7 ∧ r.peers.map (·.matchIndex) = [7, 0, 4, 2] ∧
      r.majorityMatch = 4 ∧
        IsGreatest {i | r.peers.length / 2 + 1 ≤ r.holders i} r.majorityMatch := by
  let peers : List RaftPeer :=
    [{ id := 0, matchIndex := 7 }, { id := 1 }, { id := 2, matchIndex := 4 },
      { id := 3, matchIndex := 2 }]
  let r : Raft := { (Raft.make 1 []) with lastLogIndex := 7, peers := peers }
  exact ⟨r, rfl, rfl, by decide,
    r.majorityMatch_isGreatest (by decide) (by decide) (by decide) (by decide)⟩

end Raft

end WWRaftKV
