/-
What an AppendEntries request does to the node that handles it.

A request that is accepted leaves the vector with the entries of the request at its end
and the commit index at the smaller of the leader's and the last index.  This is so even
when the hand-over that follows throws.  A request that is not accepted leaves the commit
index alone.
-/
import WWRaftKV.Core.Places

namespace WWRaftKV

open Command

namespace Raft

open RaftM

variable {r : Raft} {m : RaftAppendEntriesRequestMessage}

/-- The last index of the log with these entries at the end of the vector. -/
def lastWith (r : Raft) (es : List RaftLogEntry) : Int :=
  if es.isEmpty then r.lastLogIndex else r.baseIndex + (r.logs.length + es.length) - 1

/-- The commit index after an accepted request. -/
def commitWith (r : Raft) (m : RaftAppendEntriesRequestMessage) : Int :=
  if m.leaderCommit > r.lastCommitIndex then min m.leaderCommit (r.lastWith m.entries)
  else r.lastCommitIndex

/-- What an accepted request leaves. -/
structure Follows (r : Raft) (m : RaftAppendEntriesRequestMessage) (s : Raft) : Prop where
  log : s.SameLog (r.sync m.entries)
  lastIncludedIndex : s.lastIncludedIndex = r.lastIncludedIndex
  lastIncludedTerm : s.lastIncludedTerm = r.lastIncludedTerm
  term : s.term = m.term
  commit : s.lastCommitIndex = r.commitWith m

theorem sync_lastLogIndex (r : Raft) (es : List RaftLogEntry) :
    (r.sync es).lastLogIndex = r.lastWith es := by
  unfold sync lastWith
  split
  · rfl
  · show r.baseIndex + ((r.logs ++ es).length : Int) - 1 = _
    rw [List.length_append]
    omega

theorem sync_logs (r : Raft) (es : List RaftLogEntry) : (r.sync es).logs = r.logs ++ es := by
  unfold sync
  cases es with
  | nil => exact (List.append_nil _).symm
  | cons e es => rfl

theorem sync_baseIndex (r : Raft) (es : List RaftLogEntry) :
    (r.sync es).baseIndex = r.baseIndex := by
  unfold sync
  split <;> rfl

/-! ## An accepted request -/

/-- The two states differ in the mark of a hand-over in progress at most. -/
def SameButApplying (s s' : Scope) : Prop :=
  s'.raft.setIsApplying true = s.raft.setIsApplying true

theorem sameButApplying_applyCommitLogs : Frame SameButApplying applyCommitLogs := by
  have hr : ∀ s, SameButApplying s s := fun _ => rfl
  have ht : ∀ a b c, SameButApplying a b → SameButApplying b c → SameButApplying a c :=
    fun _ _ _ h g => g.trans h
  refine Frame.bind ht (Frame.fields hr) fun x => Frame.ite (Frame.pure hr _) ?_
  refine Frame.bind ht (fun _ => rfl) fun _ => Frame.bind ht (Frame.orThrow hr _) fun _ => ?_
  exact fun _ => rfl

/-- The end of a command after a frame, returned or thrown. -/
theorem triple_of_frame {α : Type} {R : Scope → Scope → Prop} {c : RaftM α}
    {P Q : Scope → Prop} (hc : Frame R c) (h : ∀ s s', P s → R s s' → Q s') :
    Triple P c (fun _ => Q) Q := by
  intro s hs
  have hr := hc s
  cases hcs : c.run s with
  | ok a s' =>
    rw [hcs] at hr
    exact h s s' hs hr
  | error e s' =>
    rw [hcs] at hr
    exact h s s' hs hr

/-- The node after steps 1 to 3. -/
structure Synced (r : Raft) (m : RaftAppendEntriesRequestMessage) (s : Raft) : Prop where
  log : s.SameLog (r.sync m.entries)
  lastIncludedIndex : s.lastIncludedIndex = r.lastIncludedIndex
  lastIncludedTerm : s.lastIncludedTerm = r.lastIncludedTerm
  term : s.term = m.term
  commit : s.lastCommitIndex = r.lastCommitIndex

theorem synced_sync {s : Raft} (hk : s.marks = r.marks) (ht : s.term = m.term) :
    Synced r m (s.sync m.entries) := by
  have hm := sync_marks hk m.entries
  have hsame : ∀ x : Raft, (x.sync m.entries).term = x.term ∧
      (x.sync m.entries).lastIncludedIndex = x.lastIncludedIndex ∧
      (x.sync m.entries).lastIncludedTerm = x.lastIncludedTerm ∧
      (x.sync m.entries).lastCommitIndex = x.lastCommitIndex := by
    intro x
    unfold sync
    split <;> exact ⟨rfl, rfl, rfl, rfl⟩
  obtain ⟨hst, hsi, hsit, hsc⟩ := hsame s
  exact ⟨⟨logs_of_marks hm, baseIndex_of_marks hm, lastLogIndex_of_marks hm⟩,
    hsi.trans (lastIncludedIndex_of_marks hk), hsit.trans (lastIncludedTerm_of_marks hk),
    hst.trans ht, hsc.trans (lastCommitIndex_of_marks hk)⟩

theorem follows_of_same {s s' : Raft} (h : Follows r m s)
    (hs : s'.setIsApplying true = s.setIsApplying true) : Follows r m s' where
  log := ⟨(congrArg logs hs).trans h.log.logs, (congrArg baseIndex hs).trans h.log.baseIndex,
    (congrArg Raft.lastLogIndex hs).trans h.log.lastLogIndex⟩
  lastIncludedIndex := (congrArg Raft.lastIncludedIndex hs).trans h.lastIncludedIndex
  lastIncludedTerm := (congrArg Raft.lastIncludedTerm hs).trans h.lastIncludedTerm
  term := (congrArg Raft.term hs).trans h.term
  commit := (congrArg lastCommitIndex hs).trans h.commit

theorem triple_followCommit :
    Triple (fun s => Synced r m s.raft) (followCommit m.leaderCommit)
      (fun _ s => Follows r m s.raft) (fun s => Follows r m s.raft) := by
  refine triple_fields fun x => Triple.ite (fun hc => ?_) fun hc => Triple.pure ?_
  · refine Triple.bind (Q := fun _ s => Follows r m s.raft) (triple_assign ?_) fun _ => ?_
    · rintro s ⟨h, rfl⟩
      refine ⟨⟨h.log.logs, h.log.baseIndex, h.log.lastLogIndex⟩, h.lastIncludedIndex,
        h.lastIncludedTerm, h.term, ?_⟩
      rw [h.commit] at hc
      rw [commitWith, if_pos hc, ← sync_lastLogIndex, ← h.log.lastLogIndex]
      rfl
    · exact triple_of_frame sameButApplying_applyCommitLogs fun _ _ h hs => follows_of_same h hs
  · rintro s ⟨h, rfl⟩
    refine ⟨h.log, h.lastIncludedIndex, h.lastIncludedTerm, h.term, ?_⟩
    rw [h.commit] at hc
    rw [commitWith, if_neg hc, h.commit]

theorem triple_syncLogs {es : List RaftLogEntry} {P : Scope → Prop} {E : Scope → Prop}
    {Q : Raft → Prop} (h : ∀ s, P s → Q (s.raft.sync es)) :
    Triple P (syncLogs es) (fun _ s => Q s.raft) E := by
  refine Triple.ite (fun he => Triple.pure fun s hs => ?_) fun he => ?_
  · have hq := h s hs
    rwa [sync, if_pos he] at hq
  · intro s hs
    have hq := h s hs
    rwa [sync, if_neg he] at hq

/-- What step 4 does of an accepted request, the handler does. -/
theorem triple_accepted_of {Q : Raft → Prop} {E : Scope → Prop} (h : r.Accepts m)
    (hf : Triple (fun s => Synced r m s.raft) (followCommit m.leaderCommit)
      (fun _ s => Q s.raft) E) :
    Triple (fun s => s = r.start) (handleAppendEntriesRequest m) (fun _ s => Q s.raft) E := by
  refine triple_fields fun x => Triple.ite (fun hlt => ?_) fun _ => ?_
  · rintro s ⟨rfl, rfl⟩
    exact absurd hlt (Nat.not_lt.mpr h.1)
  refine Triple.bind (Q := fun _ s => s.raft = r.observe m.fromId m.term) ?_ fun _ => ?_
  · rintro s ⟨rfl, rfl⟩
    rw [show (observeTerm m.fromId m.term).run r.start = _ from observeTerm_run _ _ r []]
  refine triple_fields fun y => ?_
  refine Triple.bind (Q := fun b s => s.raft = r.observe m.fromId m.term ∧ b = true) ?_
    fun b => ?_
  · rintro s ⟨hs, rfl⟩
    have hmatch : s.raft.logMatch m.prevLogIndex m.prevLogTerm = some true := by
      rw [hs, logMatch_observe]
      exact h.2
    rw [hmatch, orThrow_some_run]
    exact ⟨hs, rfl⟩
  refine Triple.ite (fun _ => ?_) fun hb => ?_
  · refine Triple.bind (triple_syncLogs (Q := Synced r m) ?_) fun _ => ?_
    · rintro s ⟨hs, _⟩
      rw [hs]
      refine synced_sync (observe_marks _ _) ?_
      unfold observe
      split
      next => rfl
      next hgt => exact Nat.le_antisymm h.1 (Nat.le_of_not_gt hgt)
    · refine Triple.bind hf fun _ => triple_fields fun z => ?_
      exact triple_push fun s hs => hs.1
  · rintro s ⟨_, rfl⟩
    exact absurd rfl hb

theorem triple_accepted (h : r.Accepts m) :
    Triple (fun s => s = r.start) (handleAppendEntriesRequest m)
      (fun _ s => Follows r m s.raft) (fun s => Follows r m s.raft) :=
  triple_accepted_of h triple_followCommit

/-- The end of a step, from a triple that says the same of a return and of a throw. -/
theorem react_of_triple {i : Input} {P : Scope → Prop}
    (h : Triple (fun s => s = r.start) (command i) (fun _ => P) P) :
    P { raft := (r.react i).raft, effects := (r.react i).effects } := by
  have hr := h r.start rfl
  rw [react_eq]
  show P (endScope ((command i).run r.start))
  cases hc : (command i).run r.start with
  | ok a s =>
    rw [hc] at hr
    exact hr
  | error e s =>
    rw [hc] at hr
    exact hr

/-- The node after the request. -/
def afterRequest (r : Raft) (m : RaftAppendEntriesRequestMessage) : Raft :=
  (r.react (.message (.appendEntriesRequest m))).raft

theorem follows_of_accepts (h : r.Accepts m) : Follows r m (r.afterRequest m) :=
  react_of_triple (P := fun s => Follows r m s.raft) (triple_accepted h)

/-! ## A request that is not accepted -/

/-- The commit index of the start, and no success answer. -/
def Refused (r : Raft) (s : Scope) : Prop :=
  s.raft.lastCommitIndex = r.lastCommitIndex ∧
    ∀ a, .appendEntriesResponse a ∈ pushedOf s.effects → a.success = false

theorem Refused.assign {s : Scope} {x : Raft} (h : Refused r s)
    (hx : x.lastCommitIndex = s.raft.lastCommitIndex) : Refused r { s with raft := x } :=
  ⟨hx.trans h.1, h.2⟩

theorem Refused.answer {s : Scope} (h : Refused r s) {a : RaftAppendEntriesResponseMessage}
    (ha : a.success = false) :
    Refused r { s with effects := s.effects ++ [.push (.appendEntriesResponse a)] } := by
  refine ⟨h.1, fun b hb => ?_⟩
  rw [pushedOf_emit] at hb
  rcases List.mem_append.mp hb with hb | hb
  · exact h.2 b hb
  · obtain rfl := RaftMessage.appendEntriesResponse.inj (List.mem_singleton.mp hb)
    exact ha

theorem triple_rejectEntries {i : Int} {a : RaftAppendEntriesResponseMessage}
    (ha : a.success = false) :
    Triple (Refused r) (rejectEntries i a) (fun _ => Refused r) (Refused r) := by
  refine Triple.bind (Q := fun _ => Refused r) (triple_assign fun s hs => ?_) fun _ => ?_
  · exact hs.assign (truncateAfter_lastCommitIndex _ _)
  refine Triple.bind (Q := fun _ => Refused r) (triple_push fun s hs => hs.answer ha) fun _ => ?_
  refine triple_fields fun x => ?_
  refine Triple.bind (Q := fun _ => Refused r) ?_ fun _ => Triple.pure fun _ hs => hs
  exact triple_orThrow (fun _ _ _ hs => hs.1) fun _ _ hs => hs.1

theorem triple_refused (h : ¬ r.Accepts m) :
    Triple (fun s => s = r.start) (handleAppendEntriesRequest m)
      (fun _ => Refused r) (Refused r) := by
  have hstart : Refused r r.start := ⟨rfl, fun _ ha => nomatch ha⟩
  refine triple_fields fun x => Triple.ite (fun hlt => ?_) fun hle => ?_
  · refine triple_push ?_
    rintro s ⟨rfl, _⟩
    exact hstart.answer rfl
  refine Triple.bind (Q := fun _ s => Refused r s ∧ r.term ≤ m.term ∧ s.raft.logMatch = r.logMatch)
    ?_ fun _ => ?_
  · rintro s ⟨rfl, rfl⟩
    rw [show (observeTerm m.fromId m.term).run r.start = _ from observeTerm_run _ _ r []]
    refine ⟨⟨lastCommitIndex_of_marks (observe_marks _ _), fun a ha => ?_⟩,
      Nat.le_of_not_lt hle, logMatch_observe _ _⟩
    unfold observeEffects at ha
    split at ha <;> cases ha
  refine triple_fields fun y => ?_
  refine Triple.bind (Q := fun b s => Refused r s ∧ b = false) ?_ fun b => ?_
  · refine triple_orThrow ?_ fun _ _ hs => hs.1.1
    rintro b s hb ⟨⟨hs, ht, hl⟩, rfl⟩
    refine ⟨hs, ?_⟩
    rw [hl] at hb
    cases b with
    | false => rfl
    | true => exact absurd ⟨ht, hb⟩ h
  refine Triple.ite (fun hb => ?_) fun _ => ?_
  · rintro s ⟨_, rfl⟩
    cases hb
  · exact (triple_rejectEntries rfl).pre fun _ hs => hs.1

theorem react_refused (h : ¬ r.Accepts m) :
    Refused r { raft := (r.react (.message (.appendEntriesRequest m))).raft
                effects := (r.react (.message (.appendEntriesRequest m))).effects } :=
  react_of_triple (triple_refused h)

/-- A step that answers with success has accepted the request. -/
theorem accepts_of_success {a : RaftAppendEntriesResponseMessage}
    (ha : .appendEntriesResponse a ∈ (r.react (.message (.appendEntriesRequest m))).pushed)
    (hs : a.success = true) : r.Accepts m := by
  by_contra h
  have hf := (react_refused h).2 a ha
  rw [hs] at hf
  cases hf

/-! ## The same request again -/

theorem logMatch_sync {i : Int} {t : Nat} {s : Raft} (h : r.logMatch i t = some true)
    (hlog : s.SameLog (r.sync m.entries)) (hi : s.lastIncludedIndex = r.lastIncludedIndex)
    (ht : s.lastIncludedTerm = r.lastIncludedTerm) : s.logMatch i t = some true := by
  have hbase : s.baseIndex = r.baseIndex := hlog.baseIndex.trans (sync_baseIndex r m.entries)
  have hlogs : s.logs = r.logs ++ m.entries := hlog.logs.trans (sync_logs r m.entries)
  have hlast : s.lastLogIndex = r.lastWith m.entries :=
    hlog.lastLogIndex.trans (sync_lastLogIndex r m.entries)
  unfold logMatch at h ⊢
  rw [hi, ht, hbase]
  by_cases h0 : i = 0
  · rw [if_pos h0]
  by_cases hinc : i = r.lastIncludedIndex
  · rw [if_neg h0, if_pos hinc] at h ⊢
    exact h
  rw [if_neg h0, if_neg hinc] at h ⊢
  by_cases hin : i < r.baseIndex ∨ i > r.lastLogIndex
  · rw [if_pos hin] at h
    cases h
  rw [if_neg hin] at h
  unfold getTermAt at h ⊢
  rw [if_neg hinc, if_neg hin] at h
  cases he : r.logsAt (i - r.baseIndex) with
  | none =>
    rw [he] at h
    cases h
  | some e =>
    obtain ⟨hpos, hget⟩ := logsAt_some he
    have hlt := (List.getElem?_eq_some_iff.mp hget).1
    have hreach : ¬ (i < r.baseIndex ∨ i > s.lastLogIndex) := by
      rw [hlast, lastWith]
      split <;> omega
    have hsame : s.logsAt (i - r.baseIndex) = some e := by
      unfold logsAt
      rw [if_neg (by omega), hlogs, List.getElem?_append_left hlt]
      exact hget
    rw [hi, hbase, if_neg hreach, if_neg hinc, if_neg hreach, hsame]
    rw [he] at h
    exact h

theorem Follows.accepts {s : Raft} (h : Follows r m s) (ha : r.Accepts m) : s.Accepts m :=
  ⟨Nat.le_of_eq h.term, logMatch_sync ha.2 h.log h.lastIncludedIndex h.lastIncludedTerm⟩

end Raft

end WWRaftKV
