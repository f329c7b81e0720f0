/-
What one atomic step of the core changes, said once.

A handler runs through a few kinds of change.  `Change r i` lists them for a core that
was in state `r` when it took input `i`, each with the tests the source makes before it.
`react_goes`: a step that returns is a sequence of changes, and a step that throws is
one up to the throw.  An invariant of a node then needs one case for every kind of
change, not one for every handler.
-/
import Mathlib.Logic.Relation
import WWRaftKV.Core.LogStep

namespace WWRaftKV

open Command RaftM

/-! ## Marks -/

/-- The vector of entries and the indices that the node keeps about it. -/
structure Marks where
  logs : List RaftLogEntry
  baseIndex : Int
  lastLogIndex : Int
  lastLogTerm : Nat
  lastIncludedIndex : Int
  lastIncludedTerm : Nat
  lastCommitIndex : Int
  lastAppliedIndex : Int
  isApplying : Bool
  isSnapshoting : Bool
deriving DecidableEq, Repr

namespace Raft

def marks (r : Raft) : Marks where
  logs := r.logs
  baseIndex := r.baseIndex
  lastLogIndex := r.lastLogIndex
  lastLogTerm := r.lastLogTerm
  lastIncludedIndex := r.lastIncludedIndex
  lastIncludedTerm := r.lastIncludedTerm
  lastCommitIndex := r.lastCommitIndex
  lastAppliedIndex := r.lastAppliedIndex
  isApplying := r.isApplying
  isSnapshoting := r.isSnapshoting

section Marks

variable {r s : Raft}

theorem logs_of_marks (h : s.marks = r.marks) : s.logs = r.logs :=
  congrArg Marks.logs h

theorem baseIndex_of_marks (h : s.marks = r.marks) : s.baseIndex = r.baseIndex :=
  congrArg Marks.baseIndex h

theorem lastLogIndex_of_marks (h : s.marks = r.marks) : s.lastLogIndex = r.lastLogIndex :=
  congrArg Marks.lastLogIndex h

theorem lastLogTerm_of_marks (h : s.marks = r.marks) : s.lastLogTerm = r.lastLogTerm :=
  congrArg Marks.lastLogTerm h

theorem lastIncludedIndex_of_marks (h : s.marks = r.marks) :
    s.lastIncludedIndex = r.lastIncludedIndex := congrArg Marks.lastIncludedIndex h

theorem lastIncludedTerm_of_marks (h : s.marks = r.marks) :
    s.lastIncludedTerm = r.lastIncludedTerm := congrArg Marks.lastIncludedTerm h

theorem lastCommitIndex_of_marks (h : s.marks = r.marks) :
    s.lastCommitIndex = r.lastCommitIndex := congrArg Marks.lastCommitIndex h

theorem lastAppliedIndex_of_marks (h : s.marks = r.marks) :
    s.lastAppliedIndex = r.lastAppliedIndex := congrArg Marks.lastAppliedIndex h

theorem isApplying_of_marks (h : s.marks = r.marks) : s.isApplying = r.isApplying :=
  congrArg Marks.isApplying h

theorem isSnapshoting_of_marks (h : s.marks = r.marks) :
    s.isSnapshoting = r.isSnapshoting := congrArg Marks.isSnapshoting h

end Marks

end Raft

/-! ## Changes -/

/-- A message that is not about applying entries or taking a snapshot. -/
def RaftMessage.Quiet : RaftMessage → Prop
  | .applyCommitLogsRequest _ => False
  | .applyCommitLogsResponse _ => False
  | .generateSnapshotRequest _ => False
  | .generateSnapshotResponse _ => False
  | _ => True

namespace Scope

@[simps]
def emit (s : Scope) (m : RaftMessage) : Scope :=
  { s with effects := s.effects ++ [.push m] }

/-- The scope after an assignment and a persist. -/
@[simps]
def save (s : Scope) (r : Raft) : Scope where
  raft := r
  effects := s.effects ++ [.persist r.persistData]

end Scope

namespace Raft

def start (r : Raft) : Scope := { raft := r, effects := [] }

/-- The peers after a success answer. -/
def progress (m : RaftAppendEntriesResponseMessage) (r : Raft) : Raft :=
  r.setPeers (updatePeer m.fromId (·.setProgress m.lastLogIndex) r.peers)

/-- `_HandleGenerateSnapshot` up to its persist. -/
def snapshotTaken (m : GenerateSnapshotResponseMessage) (r : Raft) : Raft :=
  (r.truncateBefore (m.lastAppliedIndex + 1)).setLastIncluded m.lastAppliedIndex
    m.lastAppliedTerm

/-- `_HandleApplySnapshot`. -/
def snapshotInstalled (m : ApplySnapshotResponseMessage) (r : Raft) : Raft :=
  (r.truncateBefore m.lastIncludedIndex).setLastIncluded m.lastIncludedIndex
    m.lastIncludedTerm

/-- The entry of a client write. -/
def entryOf (m : KVOperationRequestMessage) (text : Str) (r : Raft) : RaftLogEntry :=
  { uuid := m.uuid, sequenceId := m.seq, term := r.term, command := text }

/-- The same vector at the same place. -/
structure SameLog (s r : Raft) : Prop where
  logs : s.logs = r.logs
  baseIndex : s.baseIndex = r.baseIndex
  lastLogIndex : s.lastLogIndex = r.lastLogIndex

theorem SameLog.getLogAt {s r : Raft} (h : s.SameLog r) (j : Int) :
    s.getLogAt j = r.getLogAt j := by
  unfold Raft.getLogAt logsAt
  rw [h.baseIndex, h.lastLogIndex, h.logs]

/-- The step may hand entries over, and the node is then in a state with this log. -/
def CanHand (r : Raft) (i : Input) (s : Raft) : Prop :=
  match i with
  | .message (.appendEntriesRequest m) => r.Accepts m ∧ s.SameLog (r.sync m.entries)
  | .message (.appendEntriesResponse _) => s.SameLog r
  | _ => False

open Scope

/-- The kinds of change in a step that began in state `r` with input `i`. -/
inductive Change (r : Raft) (i : Input) : Scope → Scope → Prop
  /-- a message is sent -/
  | emit (s : Scope) (m : RaftMessage) (hm : m.Quiet) : Change r i s (s.emit m)
  /-- the role, the leader, the votes counted, the peers -/
  | turn (s : Scope) (r' : Raft) (hk : r'.marks = s.raft.marks)
      (hd : r'.persistData = s.raft.persistData) : Change r i s { s with raft := r' }
  /-- the term and the vote given -/
  | vote (s : Scope) (r' : Raft) (hk : r'.marks = s.raft.marks) : Change r i s (s.save r')
  /-- step 3 of `_HandleAppendEntriesRequest` -/
  | sync (s : Scope) (m : RaftAppendEntriesRequestMessage) (hne : m.entries ≠ [])
      (hi : i = .message (.appendEntriesRequest m)) (ha : r.Accepts m)
      (hk : s.raft.marks = r.marks) :
      Change r i s
        { s.save (s.raft.appendLogs m.entries) with
          raft := (s.raft.appendLogs m.entries).refreshLast }
  /-- step 4 of it, without the hand-over -/
  | follow (s : Scope) (m : RaftAppendEntriesRequestMessage)
      (hi : i = .message (.appendEntriesRequest m))
      (hc : m.leaderCommit > s.raft.lastCommitIndex) (ha : r.Accepts m)
      (hk : s.raft.marks = (r.sync m.entries).marks) :
      Change r i s { s with
        raft := s.raft.setLastCommitIndex (min m.leaderCommit s.raft.lastLogIndex) }
  /-- a missing previous entry, when the lookup after the truncation does not throw -/
  | reject (s : Scope) (m : RaftAppendEntriesRequestMessage) (t : Nat)
      (hi : i = .message (.appendEntriesRequest m))
      (hm : r.logMatch m.prevLogIndex m.prevLogTerm = some false)
      (hk : s.raft.marks = r.marks)
      (ht : (s.raft.truncateAfter m.prevLogIndex).getTermAt m.prevLogIndex = some t)
      (hle : r.term ≤ m.term) :
      Change r i s { s with raft := s.raft.truncateAfter m.prevLogIndex }
  /-- a write of a client -/
  | write (m : KVOperationRequestMessage) (text : Str)
      (hi : i = .message (.kvOperationRequest m)) (hr : r.role = .leader)
      (ht : commandText m.opType m.key m.value = some text) :
      Change r i r.start
        { r.start.save (r.appendLogs [r.entryOf m text]) with
          raft := (r.appendLogs [r.entryOf m text]).advanceLast }
  /-- steps 3 and 4 of `_HandleAppendEntriesResponse`, without the hand-over -/
  | confirm (m : RaftAppendEntriesResponseMessage)
      (hi : i = .message (.appendEntriesResponse m)) (hr : r.role = .leader)
      (ht : m.term ≤ r.term) (hs : m.success = true)
      (hk : (r.progress m).getTermAt (r.progress m).majorityMatch = some r.term) :
      Change r i (r.progress m).start
        ((r.progress m).setLastCommitIndex (r.progress m).majorityMatch).start
  /-- `_ApplyCommitLogs` -/
  | hand (s : Scope) (es : List RaftLogEntry) (hl : r.CanHand i s.raft)
      (ha : s.raft.isApplying = false)
      (hes : (applyWindow s.raft.lastAppliedIndex s.raft.lastCommitIndex).mapM
        s.raft.getLogAt = some es) :
      Change r i s
        (Scope.emit { s with raft := s.raft.setIsApplying true } (.applyCommitLogsRequest
          { lastCommitIndex := s.raft.lastCommitIndex, entries := es }))
  /-- the acknowledgement of applied entries -/
  | applied (m : ApplyCommitLogsResponseMessage)
      (hi : i = .message (.applyCommitLogsResponse m)) :
      Change r i r.start
        ((r.setLastAppliedIndex m.lastCommitIndex).setIsApplying false).start
  /-- `_CheckIfNeedSnapshot` when there is need -/
  | demand (s : Scope) (t : Nat) (hs : s.raft.isSnapshoting = false)
      (hn : s.raft.lastAppliedIndex - s.raft.lastIncludedIndex ≥ snapshotThreshold)
      (ht : s.raft.getTermAt s.raft.lastAppliedIndex = some t) :
      Change r i s
        (Scope.emit { s with raft := s.raft.setIsSnapshoting true } (.generateSnapshotRequest
          { lastAppliedIndex := s.raft.lastAppliedIndex, lastAppliedTerm := t }))
  /-- a snapshot has been taken -/
  | generated (m : GenerateSnapshotResponseMessage)
      (hi : i = .message (.generateSnapshotResponse m))
      (hok : ¬ (m.lastAppliedIndex = -1 ∧ m.lastAppliedTerm = 0)) :
      Change r i r.start
        { r.start.save (r.snapshotTaken m) with
          raft := (r.snapshotTaken m).setIsSnapshoting false }
  /-- a snapshot has been installed -/
  | installed (m : ApplySnapshotResponseMessage)
      (hi : i = .message (.applySnapshotResponse m))
      (hok : ¬ (m.lastIncludedIndex = -1 ∧ m.lastIncludedTerm = 0)) :
      Change r i r.start (r.snapshotInstalled m).start

/-- What can be reached by changes. -/
def Goes (r : Raft) (i : Input) (s : Scope) : Prop :=
  Relation.ReflTransGen (Change r i) r.start s

/-- The request names a previous entry that the node does not have. -/
def Rejects (r : Raft) (i : Input) : Prop :=
  ∃ m, i = .message (.appendEntriesRequest m) ∧
    r.logMatch m.prevLogIndex m.prevLogTerm = some false

/-- What a handler leaves behind when it throws. -/
structure Breaks (r : Raft) (i : Input) (s : Scope) : Prop where
  reached : ∃ s', Goes r i s' ∧ s.effects = s'.effects ∧
    s.raft.baseIndex = s'.raft.baseIndex ∧
      s.raft.lastIncludedIndex = s'.raft.lastIncludedIndex ∧
        (s.raft.SameLog s'.raft ∨ r.Rejects i)
  progress : ∃ s', Goes r i s' ∧ s.raft.lastCommitIndex = s'.raft.lastCommitIndex ∧
    s.raft.lastAppliedIndex = s'.raft.lastAppliedIndex ∧
      s.raft.lastIncludedIndex = s'.raft.lastIncludedIndex

/-- A lookup in the vector that throws. -/
inductive Misses (r : Raft) (i : Input) (s : Raft) : Prop
  | term (j : Int) (h : s.getTermAt j = none)
  | window (h : (applyWindow s.lastAppliedIndex s.lastCommitIndex).mapM s.getLogAt = none)
  /-- the debug text after a truncation -/
  | reject (m : RaftAppendEntriesRequestMessage) (hi : i = .message (.appendEntriesRequest m))
      (hle : r.term ≤ m.term) (hm : r.logMatch m.prevLogIndex m.prevLogTerm = some false)
      (hk : s.marks = r.marks)
      (h : (s.truncateAfter m.prevLogIndex).getTermAt m.prevLogIndex = none)

/-- What a handler leaves behind when it throws, and the lookup that has thrown. -/
structure Throws (r : Raft) (i : Input) (s : Scope) : Prop extends Breaks r i s where
  misses : ∃ s', Goes r i s' ∧ r.Misses i s'.raft

section Goes

variable {r : Raft} {i : Input} {s s' : Scope}

theorem goes_start : Goes r i r.start := Relation.ReflTransGen.refl

theorem Goes.then (h : Goes r i s) (hc : Change r i s s') : Goes r i s' :=
  Relation.ReflTransGen.tail h hc

theorem Goes.breaks (h : Goes r i s) : Breaks r i s :=
  ⟨⟨s, h, rfl, rfl, rfl, .inl ⟨rfl, rfl, rfl⟩⟩, s, h, rfl, rfl, rfl⟩

theorem Goes.throws (h : Goes r i s) (hm : r.Misses i s.raft) : Throws r i s :=
  ⟨h.breaks, s, h, hm⟩

/-- A property of scopes that every change keeps. -/
theorem Goes.invariant {I : Scope → Prop} (h : Goes r i s) (hi : I r.start)
    (hs : ∀ a b, Change r i a b → I a → I b) : I s := by
  induction h with
  | refl => exact hi
  | tail _ hc ih => exact hs _ _ hc ih

end Goes

/-! ## The walk -/

/-- The command makes changes only. -/
def Walks (r : Raft) (i : Input) (c : RaftM Unit) : Prop :=
  Triple (Goes r i) c (fun _ => Goes r i) (Throws r i)

section Walk

variable {r : Raft} {i : Input} {c : RaftM Unit} {k : Unit → RaftM Unit}

theorem walks_pure : Walks r i (pure ()) := Triple.pure fun _ h => h

theorem walks_bind (hc : Walks r i c) (hk : Walks r i (k ())) : Walks r i (c >>= k) :=
  Triple.bind hc fun _ => hk

theorem walks_ite {p : Prop} [Decidable p] {d : RaftM Unit} (hc : p → Walks r i c)
    (hd : ¬ p → Walks r i d) : Walks r i (if p then c else d) := Triple.ite hc hd

theorem walks_fields {f : Raft → RaftM Unit}
    (h : ∀ x, Triple (fun s => Goes r i s ∧ s.raft = x) (f x) (fun _ => Goes r i)
      (Throws r i)) : Walks r i (fields >>= f) := triple_fields h

theorem walks_read {f : Raft → RaftM Unit} (h : ∀ x, Walks r i (f x)) :
    Walks r i (fields >>= f) := walks_fields fun x => (h x).pre fun _ hs => hs.1

theorem walks_push {m : RaftMessage} (hm : m.Quiet) : Walks r i (push m) :=
  triple_push fun s h => h.then (.emit s m hm)

theorem walks_assign {f : Raft → Raft} (hk : ∀ x, (f x).marks = x.marks)
    (hd : ∀ x, (f x).persistData = x.persistData) : Walks r i (assign f) :=
  triple_assign fun s h => h.then (.turn s _ (hk _) (hd _))

theorem walks_vote {f : Raft → Raft} (hk : ∀ x, (f x).marks = x.marks)
    (h : Walks r i (k ())) : Walks r i (assign f >>= fun _ => persist >>= k) := by
  intro s hs
  exact h _ (hs.then (.vote s (f s.raft) (hk _)))

theorem walks_becomeFollower (l : Int) (t : Nat) : Walks r i (becomeFollower l t) := by
  intro s hs
  exact hs.then (.vote s (s.raft.toFollower l t) rfl)

theorem walks_observeTerm (l : Int) (t : Nat) : Walks r i (observeTerm l t) :=
  walks_read fun _ => walks_ite (fun _ => walks_becomeFollower l t) fun _ => walks_pure

theorem walks_becomeCandidate : Walks r i becomeCandidate := by
  refine walks_vote (fun _ => rfl) (walks_read fun x => ?_)
  exact Triple.forM (fun p => walks_ite (fun _ => walks_pure) fun _ =>
    walks_push (m := x.requestVoteTo p) trivial) _

theorem walks_sendAppendEntriesTo (b : Bool) (p : RaftPeer) :
    Walks r i (sendAppendEntriesTo b p) := by
  refine walks_fields fun x => Triple.ite (fun _ => walks_pure.pre fun _ h => h.1) fun _ => ?_
  refine Triple.ite (fun _ => (walks_push (m := .installSnapshotRequest _) trivial).pre
    fun _ h => h.1) fun _ => ?_
  refine Triple.bind (Q := fun _ => Goes r i) ?_ fun t => walks_push trivial
  refine triple_orThrow (fun _ _ _ h => h.1) ?_
  rintro hk s ⟨hs, rfl⟩
  exact hs.throws (.term _ hk)

theorem walks_sendAppendEntries (b : Bool) : Walks r i (sendAppendEntries b) :=
  walks_read fun x => Triple.forM (fun p => walks_sendAppendEntriesTo b p) x.peers

theorem walks_applyCommitLogs :
    Triple (fun s => Goes r i s ∧ r.CanHand i s.raft) applyCommitLogs (fun _ => Goes r i)
      (Throws r i) := by
  refine triple_fields fun x => ?_
  rintro s ⟨⟨hs, hl⟩, rfl⟩
  by_cases ha : s.raft.isApplying
  · rw [if_pos ha]
    exact hs
  · rw [if_neg ha, bind_run, assign_run]
    cases hes : (applyWindow s.raft.lastAppliedIndex s.raft.lastCommitIndex).mapM
        s.raft.getLogAt with
    | none => exact ⟨⟨⟨s, hs, rfl, rfl, rfl, .inl ⟨rfl, rfl, rfl⟩⟩, s, hs, rfl, rfl, rfl⟩,
        s, hs, .window hes⟩
    | some es => exact hs.then (.hand s es hl (Bool.eq_false_iff.mpr ha) hes)

theorem walks_checkIfNeedSnapshot : Walks r i checkIfNeedSnapshot := by
  refine walks_fields fun x => ?_
  rintro s ⟨hs, rfl⟩
  by_cases hb : s.raft.isSnapshoting
  · rw [if_pos hb]
    exact hs
  have hb' : s.raft.isSnapshoting = false := Bool.eq_false_iff.mpr hb
  rw [if_neg hb, bind_run, assign_run]
  by_cases hn : s.raft.lastAppliedIndex - s.raft.lastIncludedIndex ≥ snapshotThreshold
  · simp only [if_pos hn]
    have hterm : (s.raft.setIsSnapshoting true).getTermAt s.raft.lastAppliedIndex =
        s.raft.getTermAt s.raft.lastAppliedIndex := rfl
    rw [generateSnapshot, bind_run, fields_run]
    simp only [setIsSnapshoting_lastAppliedIndex, hterm]
    cases ht : s.raft.getTermAt s.raft.lastAppliedIndex with
    | none => exact ⟨⟨⟨s, hs, rfl, rfl, rfl, .inl ⟨rfl, rfl, rfl⟩⟩, s, hs, rfl, rfl, rfl⟩,
        s, hs, .term _ ht⟩
    | some t => exact hs.then (.demand s t hb' hn ht)
  · simp only [if_neg hn]
    have hsame : (s.raft.setIsSnapshoting true).setIsSnapshoting false = s.raft := by
      unfold setIsSnapshoting
      rw [← hb']
    rw [assign_run]
    show Goes r i { s with raft := (s.raft.setIsSnapshoting true).setIsSnapshoting false }
    rw [hsame]
    exact hs

/-! ### The handlers -/

theorem walks_handleRequestVoteRequest (m : RaftRequestVoteRequestMessage) :
    Walks r i (handleRequestVoteRequest m) := by
  refine walks_read fun x => walks_ite (fun _ => walks_push trivial) fun _ => ?_
  refine walks_bind (walks_observeTerm _ _) (walks_read fun y => ?_)
  refine walks_ite (fun _ => walks_push trivial) fun _ => ?_
  refine walks_ite (fun _ => walks_push trivial) fun _ => ?_
  exact walks_vote (fun _ => rfl) (walks_push trivial)

theorem walks_becomeLeader : Walks r i becomeLeader := by
  refine walks_vote (fun _ => rfl) (walks_bind ?_ (walks_sendAppendEntries true))
  exact walks_assign (fun _ => rfl) fun _ => rfl

theorem walks_handleRequestVoteResponse (m : RaftRequestVoteResponseMessage) :
    Walks r i (handleRequestVoteResponse m) := by
  refine walks_read fun x => walks_ite (fun _ => walks_pure) fun _ => ?_
  refine walks_ite (fun _ => walks_becomeFollower _ _) fun _ => ?_
  refine walks_ite (fun _ => walks_pure) fun _ => ?_
  refine walks_ite (fun _ => ?_) fun _ => walks_pure
  refine walks_bind (walks_assign (fun _ => rfl) fun _ => rfl) (walks_read fun y => ?_)
  exact walks_ite (fun _ => walks_becomeLeader) fun _ => walks_pure

/-! ### The handlers whose first change depends on the start -/

/-- The command makes changes only, from the start of the step. -/
def Starts (r : Raft) (i : Input) (c : RaftM Unit) : Prop :=
  Triple (fun s => s = r.start) c (fun _ => Goes r i) (Throws r i)

theorem Walks.starts (h : Walks r i c) : Starts r i c := by
  rintro s rfl
  exact h r.start goes_start

theorem starts_pure : Starts r i (pure ()) := walks_pure.starts

theorem starts_push {m : RaftMessage} (hm : m.Quiet) : Starts r i (push m) :=
  (walks_push hm).starts

theorem starts_assign {f : Raft → Raft} (hk : ∀ x, (f x).marks = x.marks)
    (hd : ∀ x, (f x).persistData = x.persistData) : Starts r i (assign f) :=
  (walks_assign hk hd).starts

theorem starts_fields {f : Raft → RaftM Unit} (h : Starts r i (f r)) :
    Starts r i (fields >>= f) := by
  rintro s rfl
  exact h r.start rfl

theorem starts_ite {p : Prop} [Decidable p] {d : RaftM Unit} (hc : p → Starts r i c)
    (hd : ¬ p → Starts r i d) : Starts r i (if p then c else d) := Triple.ite hc hd

section AppendEntries

variable {m : RaftAppendEntriesRequestMessage}

theorem sync_marks {s : Raft} (h : s.marks = r.marks) (es : List RaftLogEntry) :
    (s.sync es).marks = (r.sync es).marks := by
  unfold sync
  split
  · exact h
  · simp only [marks, refreshLast, appendLogs, Marks.mk.injEq]
    exact ⟨by rw [logs_of_marks h], baseIndex_of_marks h,
      by rw [baseIndex_of_marks h, logs_of_marks h], by rw [logs_of_marks h],
      lastIncludedIndex_of_marks h, lastIncludedTerm_of_marks h, lastCommitIndex_of_marks h,
      lastAppliedIndex_of_marks h, isApplying_of_marks h, isSnapshoting_of_marks h⟩

theorem starts_observeTerm (l : Int) (t : Nat) :
    Triple (fun s => s = r.start) (observeTerm l t)
      (fun _ s => Goes r i s ∧ s.raft = r.observe l t) (Throws r i) := by
  rintro s rfl
  refine triple_fields (P := fun s => s = r.start) (fun x => ?_) _ rfl
  unfold observe
  by_cases ht : t > r.term
  · rintro s ⟨rfl, rfl⟩
    rw [if_pos ht]
    rw [show (if t > r.start.raft.term then becomeFollower l t else pure ()) =
      becomeFollower l t from if_pos ht]
    exact ⟨goes_start.then (.vote r.start (r.toFollower l t) rfl), rfl⟩
  · rintro s ⟨rfl, rfl⟩
    rw [if_neg ht]
    rw [show (if t > r.start.raft.term then becomeFollower l t else pure ()) =
      (pure () : RaftM Unit) from if_neg ht]
    exact ⟨goes_start, rfl⟩

theorem getTermAt_of_logMatch {j : Int} {t : Nat} (h : r.logMatch j t = none) :
    r.getTermAt j = none := by
  unfold logMatch at h
  split at h
  · cases h
  split at h
  · cases h
  split at h
  · cases h
  exact Option.map_eq_none_iff.mp h

theorem observe_marks (l : Int) (t : Nat) : (r.observe l t).marks = r.marks := by
  unfold observe
  split <;> rfl

theorem walks_syncLogs (hi : i = .message (.appendEntriesRequest m)) (ha : r.Accepts m) :
    Triple (fun s => Goes r i s ∧ s.raft.marks = r.marks) (syncLogs m.entries)
      (fun _ s => Goes r i s ∧ s.raft.marks = (r.sync m.entries).marks) (Throws r i) := by
  refine Triple.ite (fun he => ?_) fun hne => ?_
  · refine Triple.pure fun s ⟨hs, hk⟩ => ⟨hs, ?_⟩
    rw [sync, if_pos he]
    exact hk
  · rintro s ⟨hs, hk⟩
    refine ⟨hs.then (.sync s m (fun h => hne (by rw [h]; rfl)) hi ha hk), ?_⟩
    have hmarks := sync_marks hk m.entries
    rwa [sync, if_neg hne] at hmarks

theorem walks_followCommit (hi : i = .message (.appendEntriesRequest m)) (ha : r.Accepts m) :
    Triple (fun s => Goes r i s ∧ s.raft.marks = (r.sync m.entries).marks)
      (followCommit m.leaderCommit) (fun _ => Goes r i) (Throws r i) := by
  refine triple_fields fun x => Triple.ite (fun hc => ?_) fun _ => Triple.pure fun _ h => h.1.1
  refine Triple.bind (Q := fun _ s => Goes r i s ∧ r.CanHand i s.raft) ?_ fun _ =>
    walks_applyCommitLogs
  refine triple_assign ?_
  rintro s ⟨⟨hs, hk⟩, rfl⟩
  have hlog : s.raft.SameLog (r.sync m.entries) :=
    ⟨logs_of_marks hk, baseIndex_of_marks hk, lastLogIndex_of_marks hk⟩
  refine ⟨hs.then (.follow s m hi hc ha hk), ?_⟩
  subst hi
  exact ⟨ha, hlog.logs, hlog.baseIndex, hlog.lastLogIndex⟩

theorem walks_rejectEntries (hi : i = .message (.appendEntriesRequest m))
    (a : RaftAppendEntriesResponseMessage) (hle : r.term ≤ m.term)
    (hm : r.logMatch m.prevLogIndex m.prevLogTerm = some false) :
    Triple (fun s => Goes r i s ∧ s.raft.marks = r.marks) (rejectEntries m.prevLogIndex a)
      (fun _ => Goes r i) (Throws r i) := by
  rintro s ⟨hs, hk⟩
  simp only [rejectEntries, bind_run, assign_run, push_run, fields_run]
  cases ht : (s.raft.truncateAfter m.prevLogIndex).getTermAt m.prevLogIndex with
  | none =>
    have hc := truncateAfter_lastCommitIndex m.prevLogIndex s.raft
    have ha := truncateAfter_lastAppliedIndex m.prevLogIndex s.raft
    have hl := truncateAfter_lastIncludedIndex m.prevLogIndex s.raft
    refine ⟨⟨⟨_, hs.then (.emit s (.appendEntriesResponse a) trivial), rfl, ?_, hl,
      .inr ⟨m, hi, hm⟩⟩, s, hs, hc, ha, hl⟩, s, hs, .reject m hi hle hm hk ht⟩
    exact truncateAfter_baseIndex m.prevLogIndex s.raft
  | some t =>
    exact (hs.then (.reject s m t hi hm hk ht hle)).then
      (.emit _ (.appendEntriesResponse a) trivial)

theorem starts_handleAppendEntriesRequest (hi : i = .message (.appendEntriesRequest m)) :
    Starts r i (handleAppendEntriesRequest m) := by
  refine starts_fields (starts_ite (fun _ => starts_push trivial) fun hlt => ?_)
  refine Triple.bind (starts_observeTerm _ _) fun _ => ?_
  refine triple_fields fun y => ?_
  refine Triple.bind (Q := fun b s => (Goes r i s ∧ s.raft.marks = r.marks) ∧
    r.logMatch m.prevLogIndex m.prevLogTerm = some b) ?_ fun b => ?_
  · apply triple_orThrow
    · rintro b s hb ⟨⟨hs, hobs⟩, rfl⟩
      rw [hobs, logMatch_observe] at hb
      refine ⟨⟨hs, ?_⟩, hb⟩
      rw [hobs, observe_marks]
    · rintro hn s ⟨⟨hs, _⟩, rfl⟩
      exact hs.throws (.term _ (getTermAt_of_logMatch hn))
  intro s hs
  cases b with
  | true =>
    have ha : r.Accepts m := ⟨Nat.le_of_not_lt hlt, hs.2⟩
    refine Triple.bind (walks_syncLogs hi ha) (fun _ => ?_) s hs.1
    exact Triple.bind (walks_followCommit hi ha) fun _ => walks_read fun z => walks_push trivial
  | false => exact walks_rejectEntries hi _ (Nat.le_of_not_lt hlt) hs.2 s hs.1

end AppendEntries

theorem starts_commitMajority {m : RaftAppendEntriesResponseMessage}
    (hi : i = .message (.appendEntriesResponse m)) (hr : r.role = .leader)
    (ht : m.term ≤ r.term) (hs : m.success = true) :
    Triple (fun s => s = (r.progress m).start) commitMajority (fun _ => Goes r i)
      (Throws r i) := by
  have hp : Goes r i (r.progress m).start :=
    goes_start.then (.turn r.start (r.progress m) rfl rfl)
  refine triple_fields fun x => ?_
  refine Triple.bind (Q := fun t s => (s = (r.progress m).start ∧ s.raft = x) ∧
    x.getTermAt x.majorityMatch = some t) ?_ fun t => ?_
  · refine triple_orThrow (fun _ _ hk h => ⟨h, hk⟩) ?_
    rintro hk s ⟨rfl, rfl⟩
    exact hp.throws (.term _ hk)
  refine Triple.ite (fun htt => ?_) fun _ => ?_
  · rintro s ⟨⟨rfl, rfl⟩, hk⟩
    refine Triple.bind walks_applyCommitLogs (fun _ => walks_checkIfNeedSnapshot) _
      ⟨hp.then (.confirm m hi hr ht hs (htt ▸ hk)), ?_⟩
    subst hi
    exact ⟨rfl, rfl, rfl⟩
  · rintro s ⟨⟨rfl, _⟩, _⟩
    exact hp

theorem starts_handleAppendEntriesResponse {m : RaftAppendEntriesResponseMessage}
    (hi : i = .message (.appendEntriesResponse m)) :
    Starts r i (handleAppendEntriesResponse m) := by
  refine starts_fields (starts_ite (fun _ => starts_pure) fun hr => ?_)
  refine starts_ite (fun _ => (walks_becomeFollower _ _).starts) fun ht => ?_
  cases r.findPeer m.fromId with
  | none => exact starts_pure
  | some p =>
    refine starts_ite (fun hs => ?_) fun _ => starts_ite (fun _ => ?_) fun _ => starts_pure
    · rintro s rfl
      exact starts_commitMajority hi (not_not.mp hr) (Nat.le_of_not_gt ht) hs _ rfl
    · exact starts_assign (fun _ => rfl) fun _ => rfl

theorem walks_handleInstallSnapshotRequest (m : RaftInstallSnapshotRequestMessage) :
    Walks r i (handleInstallSnapshotRequest m) := by
  refine walks_read fun x => walks_ite (fun _ => walks_push trivial) fun _ => ?_
  refine walks_bind (walks_observeTerm _ _) (walks_read fun y => ?_)
  exact walks_ite (fun _ => walks_push trivial) fun _ => walks_push trivial

theorem walks_handleInstallSnapshotResponse (m : RaftInstallSnapshotResponseMessage) :
    Walks r i (handleInstallSnapshotResponse m) := by
  refine walks_read fun x => walks_ite (fun _ => walks_pure) fun _ => ?_
  refine walks_ite (fun _ => walks_pure) fun _ => ?_
  refine walks_ite (fun _ => walks_becomeFollower _ _) fun _ => ?_
  cases x.findPeer m.fromId with
  | none => exact walks_pure
  | some p => exact walks_assign (fun _ => rfl) fun _ => rfl

theorem starts_handleApplyCommitLogs {m : ApplyCommitLogsResponseMessage}
    (hi : i = .message (.applyCommitLogsResponse m)) :
    Starts r i (handleApplyCommitLogs m) := by
  rintro s rfl
  exact walks_checkIfNeedSnapshot _ (goes_start.then (.applied m hi))

theorem starts_handleGenerateSnapshot {m : GenerateSnapshotResponseMessage}
    (hi : i = .message (.generateSnapshotResponse m)) :
    Starts r i (handleGenerateSnapshot m) := by
  refine starts_ite (fun _ => starts_pure) fun hok => ?_
  rintro s rfl
  exact goes_start.then (.generated m hi hok)

theorem starts_handleApplySnapshot {m : ApplySnapshotResponseMessage}
    (hi : i = .message (.applySnapshotResponse m)) :
    Starts r i (handleApplySnapshot m) := by
  refine starts_ite (fun _ => starts_push trivial) fun hok => ?_
  rintro s rfl
  exact (goes_start.then (.installed m hi hok)).then
    (.emit _ (.installSnapshotResponse
      { seq := m.seq, term := (r.truncateBefore m.lastIncludedIndex).term }) trivial)

theorem starts_handleKVOperationRequest {m : KVOperationRequestMessage}
    (hi : i = .message (.kvOperationRequest m)) : Starts r i (handleKVOperationRequest m) := by
  refine starts_fields (starts_ite (fun _ => starts_push trivial) fun hr => ?_)
  cases ht : commandText m.opType m.key m.value with
  | none => exact starts_push trivial
  | some text =>
    rintro s rfl
    exact walks_sendAppendEntries false _ (goes_start.then
      (.write m text hi (not_not.mp hr) ht))

theorem walks_handleShutdown : Walks r i handleShutdown := by
  refine walks_bind (walks_assign (fun _ => ?_) fun _ => ?_) (walks_push trivial)
  · rfl
  · rfl

theorem starts_handleMessage {m : RaftMessage} (hi : i = .message m) :
    Starts r i (handleMessage m) := by
  cases m with
  | requestVoteRequest m => exact (walks_handleRequestVoteRequest m).starts
  | requestVoteResponse m => exact (walks_handleRequestVoteResponse m).starts
  | appendEntriesRequest m => exact starts_handleAppendEntriesRequest hi
  | appendEntriesResponse m => exact starts_handleAppendEntriesResponse hi
  | installSnapshotRequest m => exact (walks_handleInstallSnapshotRequest m).starts
  | installSnapshotResponse m => exact (walks_handleInstallSnapshotResponse m).starts
  | kvOperationRequest m => exact starts_handleKVOperationRequest hi
  | applyCommitLogsResponse m => exact starts_handleApplyCommitLogs hi
  | generateSnapshotResponse m => exact starts_handleGenerateSnapshot hi
  | applySnapshotResponse m => exact starts_handleApplySnapshot hi
  | shutdown => exact walks_handleShutdown.starts
  | _ => exact starts_pure

theorem starts_command : Starts r i (command i) := by
  cases i with
  | electionTimeout =>
    exact (walks_read fun x =>
      walks_ite (fun _ => walks_becomeCandidate) fun _ => walks_pure).starts
  | heartbeatTimeout =>
    exact (walks_read fun x => walks_ite (fun _ => walks_sendAppendEntries true)
      fun _ => walks_pure).starts
  | message m => exact starts_handleMessage rfl

end Walk

end Raft

/-- The scope at the end of a step. -/
def Reaction.scope (x : Reaction) : Scope := { raft := x.raft, effects := x.effects }

open Raft in
theorem react_goes {r : Raft} {i : Input} (h : (r.react i).thrown = false) :
    Goes r i (r.react i).scope := by
  have hs := starts_command (r := r) (i := i) r.start rfl
  rw [react_eq] at h ⊢
  show Goes r i (endScope ((command i).run r.start))
  have h' : isThrow ((command i).run r.start) = false := h
  cases hc : (command i).run r.start with
  | ok a s =>
    rw [hc] at hs
    exact hs
  | error e s =>
    rw [hc] at h'
    cases h'

open Raft in
theorem react_throws {r : Raft} {i : Input} (h : (r.react i).thrown = true) :
    Throws r i (r.react i).scope := by
  have hs := starts_command (r := r) (i := i) r.start rfl
  rw [react_eq] at h ⊢
  show Throws r i (endScope ((command i).run r.start))
  have h' : isThrow ((command i).run r.start) = true := h
  cases hc : (command i).run r.start with
  | ok a s =>
    rw [hc] at h'
    cases h'
  | error e s =>
    rw [hc] at hs
    exact hs

open Raft in
/-- A step that throws as well. -/
theorem react_breaks (r : Raft) (i : Input) : Breaks r i (r.react i).scope := by
  cases h : (r.react i).thrown with
  | false => exact (react_goes h).breaks
  | true => exact (react_throws h).toBreaks

/-! ## Compaction -/

namespace Raft

/-- Index `i` has left the vector, and the snapshot reaches it. -/
def Compacted (r : Raft) (i : Int) : Prop := i < r.baseIndex ∧ i ≤ r.lastIncludedIndex

instance (r : Raft) (i : Int) : Decidable (r.Compacted i) := by
  unfold Compacted
  infer_instance

/-- Everything in front of the vector is in the snapshot. -/
def Covered (r : Raft) : Prop := r.baseIndex ≤ r.lastIncludedIndex + 1

/-- No acknowledged snapshot ends in front of the vector. -/
structure SnapshotsReach (r : Raft) (i : Input) : Prop where
  taken : ∀ m, i = .message (.generateSnapshotResponse m) →
    ¬ (m.lastAppliedIndex = -1 ∧ m.lastAppliedTerm = 0) →
    r.baseIndex ≤ m.lastAppliedIndex + 1
  received : ∀ m, i = .message (.applySnapshotResponse m) →
    ¬ (m.lastIncludedIndex = -1 ∧ m.lastIncludedTerm = 0) →
    m.lastIncludedIndex = r.lastIncludedIndex ∨ r.baseIndex ≤ m.lastIncludedIndex

variable {r : Raft} {i : Input}

theorem Covered.of_eq {s : Raft} (h : r.Covered) (hb : s.baseIndex = r.baseIndex)
    (hi : s.lastIncludedIndex = r.lastIncludedIndex) : s.Covered := by
  unfold Covered at *
  omega

/-- The vector begins where it did, or at the given index. -/
theorem truncateBefore_baseIndex (r : Raft) (i : Int) :
    (r.truncateBefore i).baseIndex = r.baseIndex ∨ (r.truncateBefore i).baseIndex = i := by
  unfold truncateBefore
  split
  · exact .inl rfl
  · exact .inr rfl

theorem Covered.change (hr : r.SnapshotsReach i) {a b : Scope} (hc : Change r i a b)
    (h : a.raft.Covered) : b.raft.Covered := by
  cases hc with
  | turn _ r' hk => exact h.of_eq (baseIndex_of_marks hk) (lastIncludedIndex_of_marks hk)
  | vote _ r' hk => exact h.of_eq (baseIndex_of_marks hk) (lastIncludedIndex_of_marks hk)
  | reject =>
    exact h.of_eq (truncateAfter_baseIndex _ _) (truncateAfter_lastIncludedIndex _ _)
  | generated m hi hok =>
    have hm := hr.taken m hi hok
    have hb := truncateBefore_baseIndex r (m.lastAppliedIndex + 1)
    show (r.truncateBefore (m.lastAppliedIndex + 1)).baseIndex ≤ m.lastAppliedIndex + 1
    omega
  | installed m hi hok =>
    have hm := hr.received m hi hok
    have hb := truncateBefore_baseIndex r m.lastIncludedIndex
    have hc : r.baseIndex ≤ r.lastIncludedIndex + 1 := h
    show (r.truncateBefore m.lastIncludedIndex).baseIndex ≤ m.lastIncludedIndex + 1
    omega
  | _ => exact h

theorem covered_react (h : r.Covered) (hr : r.SnapshotsReach i) :
    (r.react i).raft.Covered := by
  obtain ⟨s, hs, _, hb, hi, _⟩ := (react_breaks r i).reached
  have hs' : s.raft.Covered := hs.invariant (I := fun s => s.raft.Covered) h
    fun _ _ hc => Covered.change hr hc
  exact hs'.of_eq hb hi

/-- Under the cover an index that is not compacted is still in the reach of the vector. -/
theorem Covered.baseIndex_le (h : r.Covered) {j : Int} (hj : ¬ r.Compacted j) :
    r.baseIndex ≤ j := by
  unfold Covered at h
  unfold Compacted at hj
  omega

end Raft

end WWRaftKV
