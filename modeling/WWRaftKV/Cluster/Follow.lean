/-
What an AppendEntries request makes of a follower.

Two things are asked of it: that the log agrees with the request and stays as it is when
the request comes again, and that no index is committed that the request has neither
checked nor brought.  The entries of a request always go to the end of the vector, so the
first fails whenever there are entries.  The bound on the commit index is the last index
of the follower, so the second fails when the follower's log is longer than what the
request speaks about.
-/
import WWRaftKV.Core.Follow
import WWRaftKV.Cluster.Replication
import WWRaftKV.Node.Books

namespace WWRaftKV

/-- The request has been answered with success. -/
def Reaction.succeeds (x : Reaction) : Bool :=
  x.pushed.any fun m => match m with
    | .appendEntriesResponse a => a.success
    | _ => false

namespace Raft

variable {r : Raft} {m : RaftAppendEntriesRequestMessage}

theorem accepts_of_succeeds
    (h : (r.react (.message (.appendEntriesRequest m))).succeeds = true) : r.Accepts m := by
  obtain ⟨x, hx, hs⟩ := List.any_eq_true.mp h
  cases x with
  | appendEntriesResponse a => exact accepts_of_success hx hs
  | _ => cases hs

/-! ## The log -/

/-- After the request the log has its entries behind the previous index and is unchanged
up to there, and the same request once more changes nothing. -/
structure Agrees (r : Raft) (m : RaftAppendEntriesRequestMessage) : Prop where
  placed : ∀ (k : Nat) e, m.entries[k]? = some e →
    (r.afterRequest m).getLogAt (m.prevLogIndex + 1 + k) = some e
  kept : ∀ j, j ≤ m.prevLogIndex → (r.afterRequest m).getLogAt j = r.getLogAt j
  again : ((r.afterRequest m).afterRequest m).SameLog (r.afterRequest m)

/-- The entries go to the end of the vector. -/
theorem afterRequest_logs (h : r.Accepts m) :
    (r.afterRequest m).logs = r.logs ++ m.entries :=
  (follows_of_accepts h).log.logs.trans (sync_logs r m.entries)

/-- So a request that continues the log leaves its entries where it says. -/
theorem placed_of_continues (hb : r.Booked) (h : r.Accepts m)
    (hp : m.prevLogIndex = r.lastLogIndex) {k : Nat} {e : RaftLogEntry}
    (he : m.entries[k]? = some e) :
    (r.afterRequest m).getLogAt (m.prevLogIndex + 1 + k) = some e := by
  have hlast := hb.last
  have hk := (List.getElem?_eq_some_iff.mp he).1
  have hne : m.entries ≠ [] := List.ne_nil_of_length_pos (Nat.lt_of_le_of_lt (Nat.zero_le k) hk)
  rw [(follows_of_accepts h).log.getLogAt]
  unfold sync
  rw [if_neg (by simpa using hne)]
  apply getLogAt_iff.mpr
  refine ⟨?_, ?_, ?_⟩
  · show r.baseIndex ≤ _
    omega
  · show _ ≤ r.baseIndex + ((r.logs ++ m.entries).length : Int) - 1
    rw [List.length_append]
    omega
  · show (r.appendLogs m.entries).entryAt _ = some e
    refine entryAt_appendLogs.mpr (.inr ⟨k, ?_, he⟩)
    unfold nextPlace
    omega

/-- What was in the log stays in it. -/
theorem kept_of_accepts (h : r.Accepts m) {j : Int} {e : RaftLogEntry}
    (he : r.getLogAt j = some e) : (r.afterRequest m).getLogAt j = some e := by
  obtain ⟨hbase, hlast, hentry⟩ := getLogAt_iff.mp he
  have hlt := lt_nextPlace hentry
  rw [(follows_of_accepts h).log.getLogAt]
  apply getLogAt_iff.mpr
  refine ⟨?_, ?_, ?_⟩
  · rw [sync_baseIndex]
    exact hbase
  · rw [sync_lastLogIndex, lastWith]
    unfold nextPlace at hlt
    split <;> omega
  · unfold sync
    split
    · exact hentry
    · show (r.appendLogs m.entries).entryAt j = some e
      exact entryAt_appendLogs.mpr (.inl hentry)

/-- A request that is answered with success agrees with the log, now and when it comes
again, exactly if it has no entries. -/
theorem agrees_iff (r : Raft) (m : RaftAppendEntriesRequestMessage)
    (h : (r.react (.message (.appendEntriesRequest m))).succeeds = true) :
    r.Agrees m ↔ m.entries = [] := by
  have ha := accepts_of_succeeds h
  have hagain : (r.afterRequest m).Accepts m := (follows_of_accepts ha).accepts ha
  constructor
  · intro hag
    have hlogs := hag.again.logs
    rw [afterRequest_logs hagain] at hlogs
    exact List.append_right_eq_self.mp hlogs
  · intro hnil
    have hsame : ∀ s : Raft, s.Accepts m → (s.afterRequest m).SameLog s := by
      intro s hs
      have hlog := (follows_of_accepts hs).log
      rw [hnil] at hlog
      exact hlog
    refine ⟨?_, fun j _ => (hsame r ha).getLogAt j, hsame _ hagain⟩
    intro k e he
    rw [hnil] at he
    cases he

/-- A first entry for an empty log. -/
def firstEntry : RaftAppendEntriesRequestMessage :=
  { term := 1, fromId := 0, prevLogIndex := 0, prevLogTerm := 0, leaderCommit := 0,
    entries := [{ term := 1 }] }

/-- It is appended a second time when it comes again. -/
theorem appended_again :
    ¬ ∀ (r : Raft) (m : RaftAppendEntriesRequestMessage), r.role = .follower →
      r.LogBookkeeping → (r.react (.message (.appendEntriesRequest m))).succeeds = true →
        r.Agrees m := by
  intro h
  have hbooks : (make 1 [0, 1, 2]).LogBookkeeping :=
    ⟨booked_make 1 [0, 1, 2], by decide, by decide, by decide⟩
  have hag := h (make 1 [0, 1, 2]) firstEntry rfl hbooks (by decide)
  exact absurd hag.again.lastLogIndex (by decide)

/-- The heartbeat that follows it. -/
def nextHeartbeat : RaftAppendEntriesRequestMessage :=
  { firstEntry with prevLogIndex := 1, prevLogTerm := 1, leaderCommit := 1, entries := [] }

/-- The follower keeps the first entry and commits it. -/
theorem agrees_heartbeat :
    ((make 1 [0, 1, 2]).afterRequest firstEntry).getLogAt 1 = some { term := 1 } ∧
      (((make 1 [0, 1, 2]).afterRequest firstEntry).afterRequest nextHeartbeat).lastCommitIndex =
        1 ∧ ((make 1 [0, 1, 2]).afterRequest firstEntry).Agrees nextHeartbeat :=
  ⟨by decide, by decide,
    (agrees_iff ((make 1 [0, 1, 2]).afterRequest firstEntry) nextHeartbeat (by decide)).mpr rfl⟩

/-! ## The commit index -/

/-- What the request commits it has checked, at the previous index, or brought. -/
def CommitsVerified (r : Raft) (m : RaftAppendEntriesRequestMessage) : Prop :=
  ∀ i, r.lastCommitIndex < i → i ≤ (r.afterRequest m).lastCommitIndex →
    i ≤ m.prevLogIndex + m.entries.length

/-- The last index that the node goes by before the request: entries go to the end of the
vector, and without entries `_Last_log_index` stays. -/
def lastBefore (r : Raft) (m : RaftAppendEntriesRequestMessage) : Int :=
  if m.entries.isEmpty then r.lastLogIndex else r.baseIndex + r.logs.length - 1

/-- The request is not accepted, or it names no new commit index beyond its entries, or the
log before it ends at the previous index, or so early that no index is new. -/
def LeaderCommitReached (r : Raft) (m : RaftAppendEntriesRequestMessage) : Prop :=
  r.Accepts m → m.leaderCommit ≤ r.lastCommitIndex ∨
    m.leaderCommit ≤ m.prevLogIndex + m.entries.length ∨
    r.lastBefore m ≤ m.prevLogIndex ∨ r.lastBefore m + m.entries.length ≤ r.lastCommitIndex

theorem lastWith_eq (r : Raft) (m : RaftAppendEntriesRequestMessage) :
    r.lastWith m.entries = r.lastBefore m + m.entries.length := by
  unfold lastWith lastBefore
  split
  next hnil =>
    rw [List.isEmpty_iff.mp hnil]
    exact (Int.add_zero _).symm
  next => omega

theorem commitsVerified_iff (r : Raft) (m : RaftAppendEntriesRequestMessage) :
    r.CommitsVerified m ↔ r.LeaderCommitReached m := by
  by_cases ha : r.Accepts m
  · have hc : (r.afterRequest m).lastCommitIndex = r.commitWith m := (follows_of_accepts ha).commit
    unfold CommitsVerified
    rw [hc, commitWith, lastWith_eq]
    constructor
    · intro h _
      by_cases hgt : m.leaderCommit > r.lastCommitIndex
      · rw [if_pos hgt] at h
        by_cases hnew : r.lastCommitIndex < min m.leaderCommit (r.lastBefore m + m.entries.length)
        · have hle := h _ hnew (Int.le_refl _)
          omega
        · omega
      · exact .inl (Int.not_lt.mp hgt)
    · intro h i hlt hi
      split at hi
      next => rcases h ha with hle | hle | hle | hle <;> omega
      next => omega
  · have hc : (r.afterRequest m).lastCommitIndex = r.lastCommitIndex := (react_refused ha).1
    constructor
    · exact fun _ h => absurd h ha
    · intro _ i hlt hi
      omega

end Raft

namespace Cluster

open Raft

/-- Node 1 wins term 1 and writes an entry that reaches nobody.  Node 0 wins term 2,
writes one with node 2 and commits it.  Node 1 becomes its follower, and the next
heartbeat of node 0 is on its way to it. -/
def tailLeftBehind : List Action :=
  [.electionTimeout 1, .deliver 1, .deliver 1, .client 1 (putRequest 'x' '1'),
    .electionTimeout 0, .electionTimeout 0, .deliver 8, .deliver 8,
    .client 0 (putRequest 'e' '1'), .deliver 11, .deliver 11, .heartbeatTimeout 0, .deliver 8]

/-- A request on its way to a follower makes it commit index 1, which lies beyond the entries
of the request. -/
def tailCommits (c : Cluster) : Bool :=
  c.net.any fun e =>
    match e.msg with
    | .appendEntriesRequest m =>
      decide ((c.raft e.dst).role = .follower ∧ (c.raft e.dst).lastCommitIndex < 1 ∧
        1 ≤ ((c.raft e.dst).afterRequest m).lastCommitIndex ∧
          ¬ (1 : Int) ≤ m.prevLogIndex + m.entries.length)
    | _ => false

theorem tail_committed :
    ¬ ∀ (ids : List Int) (c : Cluster), Membership ids → Reaches anyStep ids c →
      ∀ e ∈ c.net, ∀ m, e.msg = .appendEntriesRequest m → (c.raft e.dst).role = .follower →
        (c.raft e.dst).CommitsVerified m := by
  intro h
  obtain ⟨c, hr, hc⟩ := Reaches.of_exec anyStep [0, 1, 2] tailLeftBehind
    tailCommits (by decide +kernel)
  obtain ⟨e, he, hm⟩ := List.any_eq_true.mp hc
  cases hmsg : e.msg with
  | appendEntriesRequest m =>
    rw [hmsg] at hm
    obtain ⟨hf, hlt, hle, hnot⟩ := of_decide_eq_true hm
    exact hnot (h [0, 1, 2] c ⟨by decide, by decide⟩ hr e he m hmsg hf 1 hlt hle)
  | _ =>
    rw [hmsg] at hm
    cases hm

end Cluster

end WWRaftKV
