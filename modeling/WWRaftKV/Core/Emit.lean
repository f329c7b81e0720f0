/-
Which messages a step of the core may push.

`Emits P c`: whatever the command pushes satisfies `P`.  Every handler pushes a few kinds of
messages only, and it copies what it says in them from the node or from the message that it
took.
-/
import WWRaftKV.Core.Change

namespace WWRaftKV

open Command RaftM

namespace Raft

/-- The entry that an operation becomes in this state, if the core takes it for a write. -/
def writeOf (r : Raft) (m : KVOperationRequestMessage) : Option RaftLogEntry :=
  if r.role = .leader then
    (commandText m.opType m.key m.value).map fun text =>
      { uuid := m.uuid, sequenceId := m.seq, term := r.term, command := text }
  else none

/-- The peers that a step sends entries or a snapshot to, as it sees them. -/
def sendsTo (r : Raft) : Input → List RaftPeer
  | .heartbeatTimeout => if r.role = .leader then r.peers else []
  | .message (.kvOperationRequest m) => if (r.writeOf m).isSome then r.peers else []
  | .message (.requestVoteResponse m) =>
    if r.role = .candidate ∧ m.term = r.term ∧ m.voteGranted ∧
      r.voteCount + 1 > r.peers.length / 2 then r.peers.map r.resetPeer else []
  | _ => []

/-- The node as the requests of a step describe it: with the write that it has taken. -/
def written (r : Raft) : Input → Raft
  | .message (.kvOperationRequest m) => match r.writeOf m with
    | some e => (r.appendLogs [e]).advanceLast
    | none => r
  | _ => r

/-- Only a write is sent to the peers with its entries. -/
def isHeartbeat : Input → Bool
  | .message (.kvOperationRequest _) => false
  | _ => true

/-- Step 4 of `_HandleAppendEntriesResponse` is reached, and the entry there is of the current
term. -/
structure Confirms (r : Raft) (m : RaftAppendEntriesResponseMessage) : Prop where
  role : r.role = .leader
  term : m.term ≤ r.term
  success : m.success = true
  majority : (r.progress m).getTermAt (r.progress m).majorityMatch = some r.term

instance (r : Raft) (m : RaftAppendEntriesResponseMessage) : Decidable (r.Confirms m) :=
  decidable_of_iff (r.role = .leader ∧ m.term ≤ r.term ∧ m.success = true ∧
    (r.progress m).getTermAt (r.progress m).majorityMatch = some r.term)
    ⟨fun h => ⟨h.1, h.2.1, h.2.2.1, h.2.2.2⟩, fun h => ⟨h.role, h.term, h.success, h.majority⟩⟩

/-- `_CheckIfNeedSnapshot` asks for a snapshot at index `k`. -/
structure Demands (r : Raft) (k : Int) (q : GenerateSnapshotRequestMessage) : Prop where
  free : r.isSnapshoting = false
  due : k - r.lastIncludedIndex ≥ snapshotThreshold
  index : q.lastAppliedIndex = k
  term : r.getTermAt k = some q.lastAppliedTerm

/-- What may be pushed in a step from state `r` with input `i`. -/
def Emitted (r : Raft) (i : Input) : RaftMessage → Prop
  | .appendEntriesRequest q => ∃ p ∈ r.sendsTo i, p.id ≠ r.id ∧ r.baseIndex ≤ p.nextIndex ∧
    q.prevLogIndex = p.nextIndex - 1 ∧
      (r.written i).getTermAt q.prevLogIndex = some q.prevLogTerm ∧
        q.entries = if isHeartbeat i then [] else (r.written i).getLogFrom p.nextIndex
  | .installSnapshotRequest q =>
    q.lastIncludedIndex = r.lastIncludedIndex ∧ q.lastIncludedTerm = r.lastIncludedTerm ∧
      ∃ p ∈ r.sendsTo i, p.id ≠ r.id ∧ p.nextIndex < r.baseIndex
  | .applySnapshotRequest q => ∃ m, i = .message (.installSnapshotRequest m) ∧
    q.lastIncludedIndex = m.lastIncludedIndex ∧ q.lastIncludedTerm = m.lastIncludedTerm ∧
      q.snapshot = m.snapshot
  | .generateSnapshotRequest q =>
    (∃ m, i = .message (.appendEntriesResponse m) ∧ r.Confirms m ∧
      r.Demands r.lastAppliedIndex q) ∨
    ∃ m, i = .message (.applyCommitLogsResponse m) ∧ r.Demands m.lastCommitIndex q
  | .kvOperationResponse _ =>
    ∃ m, i = .message (.kvOperationRequest m) ∧ r.writeOf m = none
  | .applyCommitLogsResponse _ => False
  | .generateSnapshotResponse _ => False
  | .applySnapshotResponse _ => False
  | _ => True

/-- Started in a state with `Q`, the command ends in one, and what it pushes satisfies `P`,
also when it throws. -/
def Emits {α : Type} (Q : Raft → Prop) (P : RaftMessage → Prop) (c : RaftM α) : Prop :=
  Triple (fun s => Q s.raft ∧ ∀ m ∈ pushedOf s.effects, P m) c
    (fun _ s => Q s.raft ∧ ∀ m ∈ pushedOf s.effects, P m)
    fun s => Q s.raft ∧ ∀ m ∈ pushedOf s.effects, P m

section Emits

variable {α β : Type} {Q : Raft → Prop} {P : RaftMessage → Prop} {c : RaftM α} {f : α → RaftM β}

theorem emits_pure (a : α) : Emits Q P (pure a : RaftM α) := Triple.pure fun _ h => h

theorem emits_bind (hc : Emits Q P c) (hf : ∀ a, Emits Q P (f a)) : Emits Q P (c >>= f) :=
  Triple.bind hc hf

theorem emits_ite {p : Prop} [Decidable p] {d : RaftM α} (hc : p → Emits Q P c)
    (hd : ¬ p → Emits Q P d) : Emits Q P (if p then c else d) := Triple.ite hc hd

theorem emits_fields {f : Raft → RaftM α} (h : ∀ r, Q r → Emits Q P (f r)) :
    Emits Q P (fields >>= f) := by
  apply triple_fields
  rintro r s ⟨hs, rfl⟩
  exact h s.raft hs.1 s hs

theorem emits_assign {g : Raft → Raft} (h : ∀ r, Q r → Q (g r)) : Emits Q P (assign g) := by
  apply triple_assign
  rintro s ⟨hq, hp⟩
  exact ⟨h s.raft hq, hp⟩

theorem emits_persist : Emits Q P persist := by
  apply triple_persist
  rintro s ⟨hq, hp⟩
  refine ⟨hq, ?_⟩
  rw [pushedOf_save]
  exact hp

theorem emits_push {m : RaftMessage} (h : P m) : Emits Q P (push m) := by
  apply triple_push
  rintro s ⟨hq, hp⟩
  refine ⟨hq, ?_⟩
  intro x hx
  rw [pushedOf_emit] at hx
  rcases List.mem_append.mp hx with hx | hx
  · exact hp x hx
  · rw [List.mem_singleton.mp hx]
    exact h

theorem emits_lookup {x : Option α} (h : ∀ a, x = some a → Emits Q P (f a)) :
    Emits Q P (orThrow x >>= f) := by
  cases x with
  | none => exact fun s hs => hs
  | some a => exact h a rfl

theorem emits_orThrow (x : Option α) : Emits Q P (orThrow x) := by
  apply triple_orThrow
  · intro a s _ h
    exact h
  · intro _ s h
    exact h

theorem emits_forM {g : α → RaftM PUnit} {as : List α} (h : ∀ a ∈ as, Emits Q P (g a)) :
    Emits Q P (as.forM g) := by
  induction as with
  | nil => exact emits_pure _
  | cons a as ih =>
    apply emits_bind (h a List.mem_cons_self)
    intro _
    apply ih
    intro b hb
    exact h b (List.mem_cons_of_mem _ hb)

end Emits

/-! ## Helpers of the handlers -/

section Walk

variable {Q : Raft → Prop} {r : Raft} {i : Input}

theorem emits_becomeFollower (hQ : ∀ x l t, Q x → Q (toFollower l t x)) (l : Int) (t : Nat) :
    Emits Q (Emitted r i) (becomeFollower l t) := by
  apply emits_bind
  · apply emits_assign
    intro x hx
    exact hQ x l t hx
  · intro _
    exact emits_persist

theorem emits_observeTerm (l : Int) (t : Nat) :
    Emits (fun _ => True) (Emitted r i) (observeTerm l t) := by
  apply emits_fields
  intro x _
  apply emits_ite
  · intro _
    exact emits_becomeFollower (fun _ _ _ _ => trivial) l t
  · intro _
    exact emits_pure ()

theorem written_fields (r : Raft) (i : Input) :
    (r.written i).baseIndex = r.baseIndex ∧
      (r.written i).lastIncludedIndex = r.lastIncludedIndex ∧
        (r.written i).lastIncludedTerm = r.lastIncludedTerm := by
  unfold written
  split
  · split <;> exact ⟨rfl, rfl, rfl⟩
  · exact ⟨rfl, rfl, rfl⟩

/-- What a loop over the peers needs of the state: the log stays as it is when the loop
begins. -/
structure Sending (r : Raft) (i : Input) (x : Raft) : Prop where
  id : x.id = r.id
  peers : x.peers = r.sendsTo i
  log : x.SameLog (r.written i)
  index : x.lastIncludedIndex = r.lastIncludedIndex
  term : x.lastIncludedTerm = r.lastIncludedTerm

theorem Sending.getTermAt {x : Raft} (h : Sending r i x) (j : Int) :
    x.getTermAt j = (r.written i).getTermAt j := by
  obtain ⟨_, hindex, hterm⟩ := written_fields r i
  unfold Raft.getTermAt logsAt
  rw [h.log.logs, h.log.baseIndex, h.log.lastLogIndex, h.index, h.term, hindex, hterm]

theorem Sending.getLogFrom {x : Raft} (h : Sending r i x) (j : Int) :
    x.getLogFrom j = (r.written i).getLogFrom j := by
  unfold Raft.getLogFrom
  rw [h.log.logs, h.log.baseIndex, h.log.lastLogIndex]

theorem emits_sendAppendEntries :
    Emits (Sending r i) (Emitted r i) (sendAppendEntries (isHeartbeat i)) := by
  apply emits_fields
  intro x hx
  apply emits_forM
  intro p hp
  rw [hx.peers] at hp
  apply emits_fields
  intro y hy
  apply emits_ite
  · intro _
    exact emits_pure ()
  intro hne
  rw [hy.id] at hne
  have hbase : y.baseIndex = r.baseIndex := hy.log.baseIndex.trans (written_fields r i).1
  apply emits_ite
  · intro hnext
    apply emits_push
    refine ⟨hy.index, hy.term, p, hp, hne, ?_⟩
    rw [← hbase]
    exact hnext
  · intro hnext
    apply emits_lookup
    intro t ht
    apply emits_push
    refine ⟨p, hp, hne, ?_, rfl, (hy.getTermAt _).symm.trans ht, ?_⟩
    · rw [← hbase]
      exact Int.not_lt.mp hnext
    · rw [← hy.getLogFrom]

/-- The node at the end of a loop over the peers, and what has been pushed. -/
def Told (r : Raft) (i : Input) (s : Scope) : Prop :=
  Sending r i s.raft ∧ ∀ m ∈ pushedOf s.effects, Emitted r i m

theorem told_becomeLeader (hi : isHeartbeat i = true) (hw : r.written i = r)
    (hps : r.peers.map r.resetPeer = r.sendsTo i) :
    Triple (fun s => s = { raft := r.countVote, effects := [] }) becomeLeader
      (fun _ => Told r i) (Told r i) := by
  have hsend := emits_sendAppendEntries (r := r) (i := i)
  rw [hi] at hsend
  rintro s rfl
  apply hsend
  refine ⟨⟨rfl, hps, ?_, rfl, rfl⟩, fun m hm => absurd hm List.not_mem_nil⟩
  rw [hw]
  exact ⟨rfl, rfl, rfl⟩

theorem told_write {m : KVOperationRequestMessage} {text : Str}
    (hi : i = .message (.kvOperationRequest m))
    (hw : r.writeOf m = some (r.entryOf m text)) :
    Triple (fun s => s = { raft := r.appendLogs [r.entryOf m text], effects := [] })
      (do
        persist
        assign advanceLast
        sendAppendEntries false) (fun _ => Told r i) (Told r i) := by
  have hsends : r.sendsTo i = r.peers := by
    rw [hi, sendsTo, hw]
    rfl
  have hwritten : r.written i = (r.appendLogs [r.entryOf m text]).advanceLast := by
    rw [hi, written, hw]
  have hsend := emits_sendAppendEntries (r := r) (i := i)
  rw [hi, isHeartbeat, ← hi] at hsend
  rintro s rfl
  apply hsend
  refine ⟨⟨rfl, hsends.symm, ?_, rfl, rfl⟩, fun m hm => absurd hm List.not_mem_nil⟩
  rw [hwritten]
  exact ⟨rfl, rfl, rfl⟩

theorem emits_applyCommitLogs (hQ : ∀ x, Q x → Q (setIsApplying true x)) :
    Emits Q (Emitted r i) applyCommitLogs := by
  apply emits_fields
  intro x _
  apply emits_ite
  · intro _
    exact emits_pure ()
  intro _
  apply emits_bind (emits_assign hQ)
  intro _
  apply emits_bind (emits_orThrow _)
  intro es
  exact emits_push trivial

/-- What a check finds, when it comes after `k` has become the last applied index. -/
structure Checks (r : Raft) (k : Int) (x : Raft) : Prop where
  applied : x.lastAppliedIndex = k
  included : x.lastIncludedIndex = r.lastIncludedIndex
  free : x.isSnapshoting = r.isSnapshoting
  term : x.getTermAt k = r.getTermAt k

theorem emits_checkIfNeedSnapshot {k : Int}
    (hi : ∀ q, r.Demands k q → Emitted r i (.generateSnapshotRequest q)) :
    Triple (fun s => Checks r k s.raft ∧ ∀ m ∈ pushedOf s.effects, Emitted r i m)
      checkIfNeedSnapshot (fun _ s => ∀ m ∈ pushedOf s.effects, Emitted r i m)
      fun s => ∀ m ∈ pushedOf s.effects, Emitted r i m := by
  -- from the first assignment on, the flag is not what it was
  have hask : ∀ x, Checks r k x → Emits
      (fun y => y.lastAppliedIndex = k ∧ y.getTermAt k = r.getTermAt k) (Emitted r i)
      (if x.isSnapshoting then pure ()
        else do
          assign (setIsSnapshoting true)
          if x.lastAppliedIndex - x.lastIncludedIndex ≥ snapshotThreshold then generateSnapshot
          else assign (setIsSnapshoting false)) := by
    intro x hx
    apply emits_ite
    · intro _
      exact emits_pure ()
    intro hfree
    apply emits_bind (emits_assign (g := setIsSnapshoting true) fun _ hy => hy)
    intro _
    apply emits_ite
    · intro hdue
      apply emits_fields
      intro y hy
      apply Triple.bind (Q := fun t s => y.getTermAt y.lastAppliedIndex = some t ∧
        (s.raft.lastAppliedIndex = k ∧ s.raft.getTermAt k = r.getTermAt k) ∧
          ∀ m ∈ pushedOf s.effects, Emitted r i m)
      · exact triple_orThrow (fun t s ht h => ⟨ht, h⟩) fun _ _ h => h
      intro t
      apply triple_push
      rintro s ⟨ht, hq, hp⟩
      refine ⟨hq, ?_⟩
      intro m hm
      rw [pushedOf_emit] at hm
      rcases List.mem_append.mp hm with hm | hm
      · exact hp m hm
      · rw [List.mem_singleton.mp hm]
        apply hi
        refine ⟨?_, ?_, hy.1, ?_⟩
        · rw [← hx.free]
          exact Bool.eq_false_iff.mpr hfree
        · rw [← hx.included, ← hx.applied]
          exact hdue
        · rw [← hy.2, ← hy.1]
          exact ht
    · intro _
      exact emits_assign (g := setIsSnapshoting false) fun _ hy => hy
  apply triple_fields
  rintro x s ⟨⟨hx, hp⟩, rfl⟩
  have hweak := (hask s.raft hx).conseq (fun _ h => h) (fun _ _ h => h.2) fun _ h => h.2
  exact hweak s ⟨⟨hx.applied, hx.term⟩, hp⟩

/-! ## The handlers -/

/-- Started in `x` with nothing done, the command pushes only what may be pushed. -/
def Keeps (r : Raft) (i : Input) (x : Raft) (c : RaftM Unit) : Prop :=
  Triple (fun s => s = { raft := x, effects := [] }) c
    (fun _ s => ∀ m ∈ pushedOf s.effects, Emitted r i m)
    fun s => ∀ m ∈ pushedOf s.effects, Emitted r i m

theorem keeps_fields {x : Raft} {f : Raft → RaftM Unit} (h : Keeps r i x (f x)) :
    Keeps r i x (fields >>= f) := by
  rintro s rfl
  exact h _ rfl

theorem keeps_ite {x : Raft} {p : Prop} [Decidable p] {c d : RaftM Unit}
    (hc : p → Keeps r i x c) (hd : ¬ p → Keeps r i x d) :
    Keeps r i x (if p then c else d) := Triple.ite hc hd

theorem keeps_assign {x : Raft} {g : Raft → Raft} {k : Unit → RaftM Unit}
    (h : Keeps r i (g x) (k ())) : Keeps r i x (assign g >>= k) := by
  rintro s rfl
  exact h _ rfl

theorem keeps_orThrow {α : Type} {x : Raft} {o : Option α} {k : α → RaftM Unit}
    (h : ∀ a, o = some a → Keeps r i x (k a)) : Keeps r i x (orThrow o >>= k) := by
  apply Triple.bind (Q := fun a s => o = some a ∧ s = { raft := x, effects := [] })
  · apply triple_orThrow
    · exact fun a s ha hs => ⟨ha, hs⟩
    · rintro _ s rfl
      exact fun m hm => absurd hm List.not_mem_nil
  · rintro a s ⟨ha, hs⟩
    exact h a ha s hs

theorem Emits.keeps {x : Raft} {c : RaftM Unit} (h : Emits Q (Emitted r i) c) (hQ : Q x) :
    Keeps r i x c := by
  apply h.conseq
  · rintro s rfl
    exact ⟨hQ, fun m hm => absurd hm List.not_mem_nil⟩
  · intro _ s hs
    exact hs.2
  · exact fun s hs => hs.2

theorem keeps_handleRequestVoteRequest (m : RaftRequestVoteRequestMessage) :
    Keeps r i r (handleRequestVoteRequest m) := by
  apply Emits.keeps (Q := fun _ => True) _ trivial
  apply emits_fields
  intro x _
  apply emits_ite
  · intro _
    exact emits_push trivial
  intro _
  apply emits_bind (emits_observeTerm _ _)
  intro _
  apply emits_fields
  intro y _
  apply emits_ite
  · intro _
    exact emits_push trivial
  intro _
  apply emits_ite
  · intro _
    exact emits_push trivial
  intro _
  apply emits_bind (emits_assign fun _ _ => trivial)
  intro _
  apply emits_bind emits_persist
  intro _
  exact emits_push trivial

theorem keeps_handleRequestVoteResponse (m : RaftRequestVoteResponseMessage)
    (hi : i = .message (.requestVoteResponse m)) : Keeps r i r (handleRequestVoteResponse m) := by
  have hquiet : ∀ x, Keeps r i x (pure ()) := fun x =>
    Emits.keeps (Q := fun _ => True) (emits_pure ()) trivial
  apply keeps_fields
  apply keeps_ite (fun _ => hquiet r)
  intro hrole
  apply keeps_ite
  · intro _
    have hfollow : Emits (fun _ => True) (Emitted r i) (becomeFollower (-1) m.term) :=
      emits_becomeFollower (fun _ _ _ _ => trivial) _ _
    exact hfollow.keeps trivial
  intro hlarger
  apply keeps_ite (fun _ => hquiet r)
  intro hsmaller
  apply keeps_ite _ (fun _ => hquiet r)
  intro hvote
  apply keeps_assign
  apply keeps_fields
  apply keeps_ite _ (fun _ => hquiet _)
  intro hwins
  -- the peers of the new leader
  subst hi
  have hsends : r.sendsTo (.message (.requestVoteResponse m)) = r.peers.map r.resetPeer :=
    if_pos ⟨not_not.mp hrole, by omega, hvote, hwins⟩
  exact (told_becomeLeader rfl rfl hsends.symm).conseq (fun _ h => h) (fun _ _ h => h.2)
    fun _ h => h.2

theorem keeps_handleAppendEntriesRequest (m : RaftAppendEntriesRequestMessage) :
    Keeps r i r (handleAppendEntriesRequest m) := by
  apply Emits.keeps (Q := fun _ => True) _ trivial
  apply emits_fields
  intro x _
  apply emits_ite
  · intro _
    exact emits_push trivial
  intro _
  apply emits_bind (emits_observeTerm _ _)
  intro _
  apply emits_fields
  intro y _
  apply emits_bind (emits_orThrow _)
  intro matched
  apply emits_ite
  · intro _
    apply emits_bind
    · apply emits_ite
      · intro _
        exact emits_pure ()
      intro _
      apply emits_bind (emits_assign fun _ _ => trivial)
      intro _
      apply emits_bind emits_persist
      intro _
      exact emits_assign fun _ _ => trivial
    intro _
    apply emits_bind
    · apply emits_fields
      intro z _
      apply emits_ite
      · intro _
        apply emits_bind (emits_assign fun _ _ => trivial)
        intro _
        exact emits_applyCommitLogs fun _ _ => trivial
      · intro _
        exact emits_pure ()
    intro _
    apply emits_fields
    intro z _
    exact emits_push trivial
  · intro _
    apply emits_bind (emits_assign fun _ _ => trivial)
    intro _
    apply emits_bind (emits_push trivial)
    intro _
    apply emits_fields
    intro z _
    apply emits_bind (emits_orThrow _)
    intro _
    exact emits_pure ()

theorem keeps_handleAppendEntriesResponse (m : RaftAppendEntriesResponseMessage)
    (hi : i = .message (.appendEntriesResponse m)) :
    Keeps r i r (handleAppendEntriesResponse m) := by
  have hquiet : ∀ x, Keeps r i x (pure ()) := fun x =>
    Emits.keeps (Q := fun _ => True) (emits_pure ()) trivial
  apply keeps_fields
  apply keeps_ite (fun _ => hquiet r)
  intro hrole
  apply keeps_ite
  · intro _
    have hfollow : Emits (fun _ => True) (Emitted r i) (becomeFollower (-1) m.term) :=
      emits_becomeFollower (fun _ _ _ _ => trivial) _ _
    exact hfollow.keeps trivial
  intro hterm
  cases r.findPeer m.fromId with
  | none => exact hquiet r
  | some p =>
    apply keeps_ite
    · intro hsuccess
      apply keeps_assign
      apply keeps_fields
      apply keeps_orThrow
      intro t ht
      apply keeps_ite _ (fun _ => hquiet _)
      intro hnow
      have hconfirms : r.Confirms m :=
        ⟨not_not.mp hrole, Nat.le_of_not_lt hterm, hsuccess, ht.trans (congrArg some hnow)⟩
      apply keeps_assign
      apply Triple.bind (Q := fun _ s => Checks r r.lastAppliedIndex s.raft ∧
        ∀ q ∈ pushedOf s.effects, Emitted r i q)
      · have happly : Emits (Checks r r.lastAppliedIndex) (Emitted r i) applyCommitLogs :=
          emits_applyCommitLogs fun x hx => ⟨hx.applied, hx.included, hx.free, hx.term⟩
        apply happly.conseq _ (fun _ _ h => h) fun _ h => h.2
        rintro s rfl
        exact ⟨⟨rfl, rfl, rfl, rfl⟩, fun q hq => absurd hq List.not_mem_nil⟩
      · intro _
        exact emits_checkIfNeedSnapshot fun q hq => .inl ⟨m, hi, hconfirms, hq⟩
    · intro _
      apply Emits.keeps (Q := fun _ => True) _ trivial
      apply emits_ite
      · intro _
        exact emits_assign fun _ _ => trivial
      · intro _
        exact emits_pure ()

theorem keeps_handleInstallSnapshotRequest (m : RaftInstallSnapshotRequestMessage)
    (hi : i = .message (.installSnapshotRequest m)) :
    Keeps r i r (handleInstallSnapshotRequest m) := by
  apply Emits.keeps (Q := fun _ => True) _ trivial
  apply emits_fields
  intro x _
  apply emits_ite
  · intro _
    exact emits_push trivial
  intro _
  apply emits_bind (emits_observeTerm _ _)
  intro _
  apply emits_fields
  intro y _
  apply emits_ite
  · intro _
    exact emits_push trivial
  · intro _
    exact emits_push ⟨m, hi, rfl, rfl, rfl⟩

theorem keeps_handleInstallSnapshotResponse (m : RaftInstallSnapshotResponseMessage) :
    Keeps r i r (handleInstallSnapshotResponse m) := by
  apply Emits.keeps (Q := fun _ => True) _ trivial
  apply emits_fields
  intro x _
  apply emits_ite
  · intro _
    exact emits_pure ()
  intro _
  apply emits_ite
  · intro _
    exact emits_pure ()
  intro _
  apply emits_ite
  · intro _
    exact emits_becomeFollower (fun _ _ _ _ => trivial) _ _
  intro _
  cases x.findPeer m.fromId with
  | none => exact emits_pure ()
  | some p => exact emits_assign fun _ _ => trivial

theorem keeps_handleApplyCommitLogs (m : ApplyCommitLogsResponseMessage)
    (hi : i = .message (.applyCommitLogsResponse m)) : Keeps r i r (handleApplyCommitLogs m) := by
  apply keeps_assign
  apply keeps_assign
  apply (emits_checkIfNeedSnapshot fun q hq => .inr ⟨m, hi, hq⟩).pre
  rintro s rfl
  exact ⟨⟨rfl, rfl, rfl, rfl⟩, fun q hq => absurd hq List.not_mem_nil⟩

theorem keeps_handleGenerateSnapshot (m : GenerateSnapshotResponseMessage) :
    Keeps r i r (handleGenerateSnapshot m) := by
  apply Emits.keeps (Q := fun _ => True) _ trivial
  apply emits_ite
  · intro _
    exact emits_pure ()
  intro _
  apply emits_bind (emits_assign fun _ _ => trivial)
  intro _
  apply emits_bind (emits_assign fun _ _ => trivial)
  intro _
  apply emits_bind emits_persist
  intro _
  exact emits_assign fun _ _ => trivial

theorem keeps_handleApplySnapshot (m : ApplySnapshotResponseMessage) :
    Keeps r i r (handleApplySnapshot m) := by
  apply Emits.keeps (Q := fun _ => True) _ trivial
  apply emits_ite
  · intro _
    exact emits_push trivial
  intro _
  apply emits_bind (emits_assign fun _ _ => trivial)
  intro _
  apply emits_fields
  intro x _
  apply emits_bind (emits_assign fun _ _ => trivial)
  intro _
  exact emits_push trivial

theorem keeps_handleKVOperationRequest (m : KVOperationRequestMessage)
    (hi : i = .message (.kvOperationRequest m)) : Keeps r i r (handleKVOperationRequest m) := by
  have hanswer : r.writeOf m = none → ∀ q, Keeps r i r (push (.kvOperationResponse q)) := by
    intro hw q
    apply Emits.keeps (Q := fun _ => True) _ trivial
    exact emits_push ⟨m, hi, hw⟩
  apply keeps_fields
  apply keeps_ite (fun hrole => hanswer (if_neg hrole) _)
  intro hrole
  cases htext : commandText m.opType m.key m.value with
  | none =>
    apply hanswer
    rw [writeOf, if_pos (not_not.mp hrole), htext]
    rfl
  | some text =>
    have hwrite : r.writeOf m = some (r.entryOf m text) := by
      rw [writeOf, if_pos (not_not.mp hrole), htext]
      rfl
    apply keeps_assign
    exact (told_write hi hwrite).conseq (fun _ h => h) (fun _ _ h => h.2) fun _ h => h.2

theorem keeps_command : Keeps r i r (command i) := by
  have hquiet : ∀ {j : Input}, Keeps r j r (pure ()) :=
    Emits.keeps (Q := fun _ => True) (emits_pure ()) trivial
  cases i with
  | electionTimeout =>
    apply Emits.keeps (Q := fun _ => True) _ trivial
    apply emits_fields
    intro x _
    apply emits_ite _ (fun _ => emits_pure ())
    intro _
    apply emits_bind (emits_assign fun _ _ => trivial)
    intro _
    apply emits_bind emits_persist
    intro _
    apply emits_fields
    intro y _
    apply emits_forM
    intro p _
    apply emits_ite
    · intro _
      exact emits_pure ()
    · intro _
      exact emits_push trivial
  | heartbeatTimeout =>
    apply keeps_fields
    apply keeps_ite _ (fun _ => hquiet)
    intro hrole
    have hsends : r.sendsTo .heartbeatTimeout = r.peers := if_pos hrole
    exact Emits.keeps (Q := Sending r .heartbeatTimeout) emits_sendAppendEntries
      ⟨rfl, hsends.symm, ⟨rfl, rfl, rfl⟩, rfl, rfl⟩
  | message m =>
    cases m with
    | requestVoteRequest m => exact keeps_handleRequestVoteRequest m
    | requestVoteResponse m => exact keeps_handleRequestVoteResponse m rfl
    | appendEntriesRequest m => exact keeps_handleAppendEntriesRequest m
    | appendEntriesResponse m => exact keeps_handleAppendEntriesResponse m rfl
    | installSnapshotRequest m => exact keeps_handleInstallSnapshotRequest m rfl
    | installSnapshotResponse m => exact keeps_handleInstallSnapshotResponse m
    | kvOperationRequest m => exact keeps_handleKVOperationRequest m rfl
    | applyCommitLogsResponse m => exact keeps_handleApplyCommitLogs m rfl
    | generateSnapshotResponse m => exact keeps_handleGenerateSnapshot m
    | applySnapshotResponse m => exact keeps_handleApplySnapshot m
    | shutdown =>
      apply Emits.keeps (Q := fun _ => True) _ trivial
      exact emits_bind (emits_assign fun _ _ => trivial) fun _ => emits_push trivial
    | _ => exact hquiet

end Walk

/-- Where a command ends, when that does not depend on whether it returns. -/
theorem endScope_of_triple {α : Type} {P I : Scope → Prop} {c : RaftM α} {s : Scope}
    (h : Triple P c (fun _ => I) I) (hs : P s) : I (endScope (c.run s)) := by
  have hr := h s hs
  cases hc : c.run s with
  | ok a s' =>
    rw [hc] at hr
    exact hr
  | error e s' =>
    rw [hc] at hr
    exact hr

/-- A step pushes what it may push, also when it throws. -/
theorem react_emitted (r : Raft) (i : Input) : ∀ m ∈ (r.react i).pushed, r.Emitted i m := by
  have hs := endScope_of_triple (keeps_command (r := r) (i := i)) rfl
  rw [react_eq]
  exact hs

theorem told_command {r : Raft} {i : Input} (h : r.sendsTo i ≠ []) :
    Told r i (endScope ((command i).run { raft := r, effects := [] })) := by
  cases i with
  | electionTimeout => exact absurd rfl h
  | heartbeatTimeout =>
    unfold sendsTo at h
    have hrole : r.role = .leader := by
      by_contra hne
      exact h (if_neg hne)
    show Told r _ (endScope (heartbeatTimeout.run _))
    rw [heartbeatTimeout, bind_run, fields_run]
    simp only [if_pos hrole]
    apply endScope_of_triple (emits_sendAppendEntries (r := r) (i := .heartbeatTimeout))
    exact ⟨⟨rfl, (if_pos hrole).symm, ⟨rfl, rfl, rfl⟩, rfl, rfl⟩,
      fun m hm => absurd hm List.not_mem_nil⟩
  | message m =>
    cases m with
    | requestVoteResponse m =>
      have hwins : r.role = .candidate ∧ m.term = r.term ∧ m.voteGranted ∧
          r.voteCount + 1 > r.peers.length / 2 := by
        by_contra hne
        exact h (if_neg hne)
      have hsends : r.sendsTo (.message (.requestVoteResponse m)) = r.peers.map r.resetPeer :=
        if_pos hwins
      obtain ⟨hrole, hterm, hvote, hmajority⟩ := hwins
      show Told r _ (endScope ((handleRequestVoteResponse m).run _))
      rw [handleRequestVoteResponse, bind_run, fields_run]
      simp only
      rw [ite_run, if_neg (not_not.mpr hrole), ite_run, if_neg (by omega), ite_run,
        if_neg (by omega), ite_run, if_pos hvote, bind_run, assign_run]
      simp only
      rw [bind_run, fields_run]
      simp only
      rw [ite_run, if_pos (show r.countVote.voteCount > r.countVote.peers.length / 2 from
        hmajority)]
      exact endScope_of_triple (told_becomeLeader rfl rfl hsends.symm) rfl
    | kvOperationRequest m =>
      unfold sendsTo at h
      have hwrite : (r.writeOf m).isSome := by
        by_contra hne
        exact h (if_neg hne)
      have hrole : r.role = .leader := by
        by_contra hne
        rw [writeOf, if_neg hne] at hwrite
        cases hwrite
      cases htext : commandText m.opType m.key m.value with
      | none =>
        rw [writeOf, if_pos hrole, htext] at hwrite
        cases hwrite
      | some text =>
        show Told r _ (endScope ((handleKVOperationRequest m).run _))
        rw [handleKVOperationRequest, bind_run, fields_run]
        simp only [if_neg (not_not.mpr hrole), htext]
        rw [bind_run, assign_run]
        apply endScope_of_triple (told_write (m := m) rfl _) rfl
        rw [writeOf, if_pos hrole, htext]
        rfl
    | _ => exact absurd rfl h

/-- A step that sends to the peers ends with the log that it has sent. -/
theorem react_sent {r : Raft} {i : Input} (h : r.sendsTo i ≠ []) :
    Sending r i (r.react i).raft := by
  have hs := told_command h
  rw [react_eq]
  exact hs.1

end Raft

/-! ## The answers to operations -/

/-- The key under which the clerk looks for the closure of the operation answered. -/
def RaftMessage.answerKey : RaftMessage → Option (Str × Nat)
  | .kvOperationResponse m => some (m.uuid, m.seq)
  | _ => none

namespace Raft

section Operations

variable {r : Raft} {i : Input}

/-- A step that takes no operation, or a write, answers none. -/
theorem answerKeys_eq_nil (hi : ∀ m, i = .message (.kvOperationRequest m) → r.writeOf m ≠ none) :
    (r.react i).pushed.filterMap RaftMessage.answerKey = [] := by
  apply List.filterMap_eq_nil_iff.mpr
  intro m hm
  have he := react_emitted r i m hm
  cases m with
  | kvOperationResponse q =>
    obtain ⟨m, rfl, hw⟩ := he
    exact absurd hw (hi m rfl)
  | _ => rfl

/-- An operation that is no write is answered at once. -/
theorem answerKeys_of_read {m : KVOperationRequestMessage} (hw : r.writeOf m = none) :
    (r.react (.message (.kvOperationRequest m))).pushed.filterMap RaftMessage.answerKey =
      [(m.uuid, m.seq)] := by
  have hrun : ∃ q, q.uuid = m.uuid ∧ q.seq = m.seq ∧
      (handleKVOperationRequest m).run { raft := r, effects := [] } =
        .ok () { raft := r, effects := [.push (.kvOperationResponse q)] } := by
    rw [handleKVOperationRequest, bind_run, fields_run]
    dsimp only
    unfold writeOf at hw
    by_cases hrole : r.role = .leader
    · rw [if_pos hrole] at hw
      rw [if_neg (not_not.mpr hrole), Option.map_eq_none_iff.mp hw]
      exact ⟨_, rfl, rfl, rfl⟩
    · rw [if_pos hrole]
      exact ⟨_, rfl, rfl, rfl⟩
  obtain ⟨q, huuid, hseq, hrun⟩ := hrun
  rw [react_eq]
  show (pushedOf (endScope ((handleKVOperationRequest m).run
    { raft := r, effects := [] })).effects).filterMap RaftMessage.answerKey = _
  rw [hrun, ← huuid, ← hseq]
  rfl

end Operations

end Raft

end WWRaftKV
