/-
What the persist file holds when a message is pushed.

`_Persist` gives up when the data cannot be serialized or the file cannot be opened, and it
tells nobody.  So a message is backed by the file as long as the last call before it
succeeded, and not otherwise.  One change of the vector adds entries without a call: a
truncation that pads.
-/
import WWRaftKV.Core.Follow
import WWRaftKV.Node.Restart

namespace WWRaftKV

open Command Raft RaftM

/-! ## The file -/

/-- The persist file: what the last call that succeeded wrote, whether the last call
succeeded, and the number of calls so far. -/
structure PersistFile where
  data : Option RaftPersistData
  intact : Bool
  calls : Nat

namespace PersistFile

/-- `_Persist`: call number `k` gets as far as the write when `ok k`. -/
def write (ok : Nat → Bool) (d : RaftPersistData) (f : PersistFile) : PersistFile where
  data := if ok f.calls then some d else f.data
  intact := ok f.calls
  calls := f.calls + 1

/-- What a restart reads.  Without a file it is what the constructor sets. -/
def contents (f : PersistFile) : RaftPersistData :=
  f.data.getD {
    term := 0
    votedFor := -1
    entries := []
    lastIncludedIndex := 0
    lastIncludedTerm := 0 }

theorem restart_contents (id : Int) (ids : List Int) (f : PersistFile) :
    (restart id ids f.data).persistData = f.contents := by
  unfold contents
  cases f.data with
  | none => rfl
  | some d => exact loadPersist_persistData id ids d

end PersistFile

/-- A message, with the file at the moment of the push. -/
structure Posted where
  message : RaftMessage
  file : PersistFile

/-- The file and the messages so far, oldest first. -/
structure Output where
  file : PersistFile
  sent : List Posted

namespace Output

def effect (ok : Nat → Bool) (o : Output) : Effect → Output
  | .push m => { o with sent := o.sent ++ [{ message := m, file := o.file }] }
  | .persist d => { o with file := o.file.write ok d }

/-- The output after these effects. -/
def after (ok : Nat → Bool) (o : Output) (es : List Effect) : Output := es.foldl (effect ok) o

theorem after_append (ok : Nat → Bool) (o : Output) (es : List Effect) (e : Effect) :
    o.after ok (es ++ [e]) = (o.after ok es).effect ok e := List.foldl_append

end Output

/-! ## What a message vouches for -/

namespace Raft

/-- The data has the term, the vote and the entries of the node.  A truncation shortens the
vector without a call of `_Persist`, so the data may have more entries at both ends. -/
structure SavedIn (r : Raft) (d : RaftPersistData) : Prop where
  term : d.term = r.term
  votedFor : d.votedFor = r.votedFor
  entries : r.logs.map RaftLogEntry.core <:+: d.entries

theorem savedIn_self (r : Raft) : r.SavedIn r.persistData where
  term := rfl
  votedFor := rfl
  entries := List.infix_rfl

theorem SavedIn.trans {r s : Raft} {d : RaftPersistData} (h : s.SavedIn r.persistData)
    (hr : r.SavedIn d) : s.SavedIn d where
  term := hr.term.trans h.term
  votedFor := hr.votedFor.trans h.votedFor
  entries := h.entries.trans hr.entries

theorem savedIn_of_logs {r s : Raft} (ht : s.term = r.term) (hv : s.votedFor = r.votedFor)
    (hl : s.logs <:+: r.logs) : s.SavedIn r.persistData where
  term := ht.symm
  votedFor := hv.symm
  entries := hl.map RaftLogEntry.core

theorem savedIn_of_same {r s : Raft} (ht : s.term = r.term) (hv : s.votedFor = r.votedFor)
    (hl : s.logs = r.logs) : s.SavedIn r.persistData :=
  savedIn_of_logs ht hv (hl ▸ List.infix_rfl)

theorem truncateBefore_savedIn (i : Int) (r : Raft) :
    (r.truncateBefore i).SavedIn r.persistData := by
  unfold truncateBefore
  split
  · exact r.savedIn_self
  · exact savedIn_of_logs rfl rfl (List.drop_suffix _ _).isInfix

/-- The rejection of this request leaves the vector longer than it was.  The handler
returns from a truncation at the snapshot point only (`pads_of_truncateAfter`). -/
def Pads (r : Raft) : Input → Prop
  | .message (.appendEntriesRequest m) =>
    r.term ≤ m.term ∧ r.logMatch m.prevLogIndex m.prevLogTerm = some false ∧
      m.prevLogIndex = r.lastIncludedIndex ∧ r.baseIndex ≤ m.prevLogIndex ∧
      m.prevLogIndex ≤ r.lastLogIndex ∧ r.logs.length < (m.prevLogIndex - r.baseIndex).toNat
  | _ => False

instance (r : Raft) (i : Input) : Decidable (r.Pads i) := by
  induction i using Input.casesOn with
  | message m => induction m using RaftMessage.casesOn <;> unfold Pads <;> infer_instance
  | _ => exact .isFalse fun h => h

end Raft

/-- What the message vouches for is in the data.  `node` is the node after the step that
pushes it, and `i` is what the step handles. -/
def RaftMessage.SavedIn (i : Input) (node : Raft) (d : RaftPersistData) : RaftMessage → Prop
  | .requestVoteRequest q => d.term = q.term ∧ d.votedFor = q.fromId
  | .requestVoteResponse a => a.voteGranted = true →
    ∃ m, i = .message (.requestVoteRequest m) ∧ d.term = a.term ∧ d.votedFor = m.fromId
  | .appendEntriesRequest q =>
    d.term = q.term ∧ q.entries.map RaftLogEntry.core <:+: d.entries
  | .appendEntriesResponse a => a.success = true →
    ∃ m, i = .message (.appendEntriesRequest m) ∧ d.term = a.term ∧
      m.entries.map RaftLogEntry.core <:+: d.entries ∧
      node.logs.map RaftLogEntry.core <:+: d.entries
  | _ => True

/-! ## A node that writes to the file -/

/-- One step: what the node handled, the node afterwards, and what it pushed. -/
structure Turn where
  input : Input
  node : Raft
  sent : List Posted

structure Author where
  raft : Raft
  file : PersistFile
  alive : Bool
  turns : List Turn

namespace Author

/-- The node after a restart from this file. -/
def init (id : Int) (ids : List Int) (data : Option RaftPersistData) : Author where
  raft := restart id ids data
  file := { data := data, intact := true, calls := 0 }
  alive := true
  turns := []

/-- The file and the messages of the step that handles `i`. -/
def output (ok : Nat → Bool) (a : Author) (i : Input) : Output :=
  ({ file := a.file, sent := [] } : Output).after ok (a.raft.react i).effects

/-- The core handles the input.  A file that lacks padding of the vector is no longer
intact. -/
def step (ok : Nat → Bool) (a : Author) (i : Input) : Option Author :=
  if a.alive then
    let o := a.output ok i
    some {
      raft := (a.raft.react i).raft
      file := { o.file with intact := o.file.intact && !decide (a.raft.Pads i) }
      alive := !(a.raft.react i).thrown
      turns := a.turns ++ [{ input := i, node := (a.raft.react i).raft, sent := o.sent }] }
  else none

end Author

/-! ## The walk through the handlers -/

/-- What the walk is about: which calls succeed, the input, the node and its output before
the step. -/
structure Setting where
  ok : Nat → Bool
  input : Input
  before : Raft
  start : Output

namespace Setting

variable (W : Setting)

def out (s : Scope) : Output := W.start.after W.ok s.effects

/-- Every message so far is backed by the file it was pushed with, and the node has `C`. -/
structure Said (C : Raft → Prop) (s : Scope) : Prop where
  said : ∀ x ∈ (W.out s).sent, x.file.intact = true →
    ∀ n, x.message.SavedIn W.input n x.file.contents
  side : C s.raft

/-- The node itself is backed as well. -/
structure Backed (C : Raft → Prop) (s : Scope) : Prop extends W.Said C s where
  saved : (W.out s).file.intact = true → s.raft.SavedIn (W.out s).file.contents

/-- The end of a step that returns. -/
structure Told (s : Scope) : Prop where
  said : ∀ x ∈ (W.out s).sent, x.file.intact = true →
    x.message.SavedIn W.input s.raft x.file.contents
  saved : ¬ W.before.Pads W.input → (W.out s).file.intact = true →
    s.raft.SavedIn (W.out s).file.contents

/-- The end of a step that throws. -/
def Broken (s : Scope) : Prop := W.Said (fun _ => True) s

variable {W} {C D : Raft → Prop} {s : Scope}

theorem Said.mono (h : W.Said C s) (hd : C s.raft → D s.raft) : W.Said D s := ⟨h.said, hd h.side⟩

theorem Said.broken (h : W.Said C s) : W.Broken s := h.mono fun _ => trivial

theorem Backed.mono (h : W.Backed C s) (hd : C s.raft → D s.raft) : W.Backed D s :=
  ⟨h.toSaid.mono hd, h.saved⟩

theorem Backed.told (h : W.Backed C s) : W.Told s where
  said := fun x hx hi => h.said x hx hi s.raft
  saved := fun _ => h.saved

theorem out_push (s : Scope) (m : RaftMessage) :
    W.out { s with effects := s.effects ++ [.push m] } = (W.out s).effect W.ok (.push m) :=
  Output.after_append _ _ _ _

theorem out_persist (s : Scope) (d : RaftPersistData) :
    W.out { s with effects := s.effects ++ [.persist d] } =
      (W.out s).effect W.ok (.persist d) :=
  Output.after_append _ _ _ _

/-! ### Rules -/

section Rules

variable {α : Type} {Q : α → Scope → Prop} {E : Scope → Prop} {f : Raft → Raft} {m : RaftMessage}

theorem backed_fields {k : Raft → RaftM α} (h : ∀ r, C r → Triple (W.Backed (· = r)) (k r) Q E) :
    Triple (W.Backed C) (fields >>= k) Q E := by
  refine Triple.bind (Q := fun r s => C r ∧ W.Backed (· = r) s) ?_ fun r s hs => h r hs.1 s hs.2
  exact Triple.of_ok fields_run fun s hs => ⟨hs.side, hs.mono fun _ => rfl⟩

/-- Any assignment, as long as a call of `_Persist` follows. -/
theorem said_assign (h : ∀ r, C r → D (f r)) :
    Triple (W.Said C) (assign f) (fun _ => W.Said D) E :=
  triple_assign fun s hs => ⟨hs.said, h s.raft hs.side⟩

theorem backed_assign (hb : ∀ r, C r → (f r).SavedIn r.persistData) (h : ∀ r, C r → D (f r)) :
    Triple (W.Backed C) (assign f) (fun _ => W.Backed D) E := by
  refine triple_assign fun s hs => ⟨⟨hs.said, h s.raft hs.side⟩, fun hi => ?_⟩
  exact (hb s.raft hs.side).trans (hs.saved hi)

/-- A call of `_Persist` that succeeds brings the file up to date, whatever it was before. -/
theorem said_persist : Triple (W.Said C) persist (fun _ => W.Backed C) E := by
  refine triple_persist fun s hs => ⟨⟨?_, hs.side⟩, ?_⟩
  · rw [out_persist]
    exact hs.said
  · rw [out_persist]
    intro hi
    have hok : W.ok (W.out s).file.calls = true := hi
    show s.raft.SavedIn (((W.out s).file.write W.ok s.raft.persistData).contents)
    unfold PersistFile.write PersistFile.contents
    rw [if_pos hok]
    exact s.raft.savedIn_self

theorem backed_write (h : ∀ r, C r → D (f r)) :
    Triple (W.Backed C) (assign f >>= fun _ => persist) (fun _ => W.Backed D) E := by
  refine Triple.bind (Q := fun _ => W.Said D) ?_ fun _ => said_persist
  exact (said_assign h).pre fun _ hs => hs.toSaid

theorem write_then {k : RaftM α} (h : ∀ r, C r → D (f r)) (hk : Triple (W.Backed D) k Q E) :
    Triple (W.Backed C) (assign f >>= fun _ => persist >>= fun _ => k) Q E := by
  refine Triple.bind (Q := fun _ => W.Said D) ?_ fun _ => Triple.bind said_persist fun _ => hk
  exact (said_assign h).pre fun _ hs => hs.toSaid

theorem mem_push {x : Posted} (hx : x ∈ (W.out { s with effects := s.effects ++ [.push m] }).sent) :
    x ∈ (W.out s).sent ∨ x = { message := m, file := (W.out s).file } := by
  rw [out_push] at hx
  exact (List.mem_append.mp hx).imp_right List.mem_singleton.mp

theorem said_push (hm : ∀ n d, m.SavedIn W.input n d) :
    Triple (W.Said C) (push m) (fun _ => W.Said C) E := by
  refine triple_push fun s hs => ⟨fun x hx hi n => ?_, hs.side⟩
  cases mem_push hx with
  | inl h => exact hs.said x h hi n
  | inr h =>
    rw [h]
    exact hm n _

/-- A message that the node itself vouches for. -/
theorem backed_push (hm : ∀ r, C r → ∀ n d, r.SavedIn d → m.SavedIn W.input n d) :
    Triple (W.Backed C) (push m) (fun _ => W.Backed C) E := by
  refine triple_push fun s hs => ⟨⟨fun x hx hi n => ?_, hs.side⟩, ?_⟩
  · cases mem_push hx with
    | inl h => exact hs.said x h hi n
    | inr h =>
      subst h
      exact hm s.raft hs.side n _ (hs.saved hi)
  · rw [out_push]
    exact hs.saved

theorem backed_orThrow {x : Option α} {k : α → RaftM Unit}
    (h : ∀ a, x = some a → Triple (W.Backed C) (k a) (fun _ => W.Backed D) W.Broken) :
    Triple (W.Backed C) (orThrow x >>= k) (fun _ => W.Backed D) W.Broken := by
  refine Triple.bind (Q := fun a s => W.Backed C s ∧ x = some a) ?_ fun a => ?_
  · exact triple_orThrow (fun _ _ hx hs => ⟨hs, hx⟩) fun _ _ hs => hs.broken
  · exact fun s hs => h a hs.2 s hs.1

end Rules

/-- A handler that starts with `C` ends with everything backed. -/
def Covers (W : Setting) (C : Raft → Prop) (c : RaftM Unit) : Prop :=
  Triple (W.Backed C) c (fun _ => W.Backed fun _ => True) W.Broken

theorem covers_of {c : RaftM Unit} (h : Triple (W.Backed C) c (fun _ => W.Backed D) W.Broken) :
    W.Covers C c :=
  h.conseq (fun _ hs => hs) (fun _ _ hs => hs.mono fun _ => trivial) fun _ hs => hs

theorem covers_pure : W.Covers C (pure ()) := covers_of (Triple.pure fun _ hs => hs)

theorem covers_push {m : RaftMessage}
    (hm : ∀ r, C r → ∀ n d, r.SavedIn d → m.SavedIn W.input n d) : W.Covers C (push m) :=
  covers_of (backed_push hm)

theorem Covers.told {c : RaftM Unit} (h : W.Covers C c) :
    Triple (W.Backed C) c (fun _ => W.Told) W.Broken :=
  h.conseq (fun _ hs => hs) (fun _ _ hs => hs.told) fun _ hs => hs

theorem covers_assign {f : Raft → Raft} (h : ∀ r, (f r).SavedIn r.persistData) :
    W.Covers C (assign f) := backed_assign (fun r _ => h r) fun _ _ => trivial

theorem covers_bind {c d : RaftM Unit} (hc : W.Covers C c) (hd : W.Covers (fun _ => True) d) :
    W.Covers C (c >>= fun _ => d) := Triple.bind hc fun _ => hd

/-! ### The handlers -/

theorem covers_becomeFollower (leaderId : Int) (t : Nat) :
    W.Covers C (becomeFollower leaderId t) := backed_write fun _ _ => trivial

theorem backed_observeTerm {r : Raft} (leaderId : Int) (t : Nat) :
    Triple (W.Backed (· = r)) (observeTerm leaderId t)
      (fun _ => W.Backed (· = r.observe leaderId t)) W.Broken := by
  refine backed_fields fun x hx => ?_
  subst hx
  unfold Raft.observe
  refine Triple.ite (fun ht => ?_) fun ht => ?_
  · rw [if_pos ht]
    exact backed_write fun y hy => congrArg (toFollower leaderId t) hy
  · rw [if_neg ht]
    exact Triple.pure fun _ hs => hs

theorem covers_becomeCandidate : W.Covers C becomeCandidate := by
  refine write_then (D := fun r => r.votedFor = r.id) (fun _ _ => rfl) ?_
  refine backed_fields fun r hr => covers_of (Triple.forM (fun p => ?_) r.peers) (D := (· = r))
  refine Triple.ite (fun _ => Triple.pure fun _ hs => hs) fun _ => backed_push ?_
  rintro _ rfl n d hd
  exact ⟨hd.term, hd.votedFor.trans hr⟩

theorem getLogFrom_infix (r : Raft) (i : Int) : r.getLogFrom i <:+: r.logs := by
  unfold getLogFrom
  split
  · exact List.nil_infix
  · exact (List.drop_suffix _ _).isInfix

theorem covers_sendAppendEntriesTo (b : Bool) (p : RaftPeer) :
    W.Covers C (sendAppendEntriesTo b p) := by
  refine backed_fields fun r _ => Triple.ite (fun _ => covers_pure) fun _ => ?_
  refine Triple.ite (fun _ => covers_push fun _ _ _ _ _ => trivial) fun _ => ?_
  refine backed_orThrow fun t _ => covers_push ?_
  rintro _ rfl n d hd
  refine ⟨hd.term, List.IsInfix.trans (List.IsInfix.map _ ?_) hd.entries⟩
  cases b with
  | true => exact List.nil_infix
  | false => exact getLogFrom_infix _ _

theorem covers_sendAppendEntries (b : Bool) : W.Covers C (sendAppendEntries b) := by
  refine backed_fields fun r _ => ?_
  refine (Triple.forM (P := W.Backed fun _ => True) (fun p => ?_) r.peers).pre ?_
  · exact covers_sendAppendEntriesTo b p
  · exact fun s hs => hs.mono fun _ => trivial

theorem covers_becomeLeader : W.Covers C becomeLeader := by
  refine write_then (D := fun _ => True) (fun _ _ => trivial) ?_
  refine covers_bind (covers_assign fun _ => ?_) (covers_sendAppendEntries true)
  exact savedIn_of_same rfl rfl rfl

/-- The term of a handler, and entries it has put into the vector. -/
def Carries (t : Nat) (es : List RaftLogEntry) (r : Raft) : Prop := r.term = t ∧ es <:+: r.logs

theorem backed_applyCommitLogs {t : Nat} {es : List RaftLogEntry} :
    Triple (W.Backed (Carries t es)) applyCommitLogs (fun _ => W.Backed (Carries t es))
      W.Broken := by
  refine backed_fields fun r hr => Triple.ite (fun _ => ?_) fun _ => ?_
  · exact Triple.pure fun s hs => hs.mono fun h => h ▸ hr
  refine Triple.bind (backed_assign (D := Carries t es) ?_ ?_) fun _ => ?_
  · exact fun x _ => savedIn_of_same rfl rfl rfl
  · rintro _ rfl
    exact hr
  refine backed_orThrow fun xs _ => ?_
  exact backed_push fun _ _ _ _ _ => trivial

theorem covers_applyCommitLogs : W.Covers C applyCommitLogs := by
  intro s hs
  have h : Triple (W.Backed (Carries s.raft.term [])) applyCommitLogs
      (fun _ => W.Backed (Carries s.raft.term [])) W.Broken := backed_applyCommitLogs
  exact covers_of h s (hs.mono fun _ => ⟨rfl, List.nil_infix⟩)

theorem backed_followCommit {t : Nat} {es : List RaftLogEntry} (c : Int) :
    Triple (W.Backed (Carries t es)) (followCommit c) (fun _ => W.Backed (Carries t es))
      W.Broken := by
  refine backed_fields fun r hr => Triple.ite (fun _ => ?_) fun _ => ?_
  · refine Triple.bind (backed_assign (D := Carries t es) ?_ ?_) fun _ => backed_applyCommitLogs
    · exact fun x _ => savedIn_of_same rfl rfl rfl
    · rintro _ rfl
      exact hr
  · exact Triple.pure fun s hs => hs.mono fun h => h ▸ hr

theorem covers_generateSnapshot : W.Covers C generateSnapshot := by
  refine backed_fields fun r _ => backed_orThrow fun t _ => ?_
  exact covers_push fun _ _ _ _ _ => trivial

theorem covers_checkIfNeedSnapshot : W.Covers C checkIfNeedSnapshot := by
  refine backed_fields fun r _ => Triple.ite (fun _ => covers_pure) fun _ => ?_
  have hset : ∀ b : Bool, W.Covers (fun _ => True) (assign (setIsSnapshoting b)) := fun b =>
    covers_assign fun _ => savedIn_of_same rfl rfl rfl
  refine covers_bind ?_ ?_
  · exact covers_assign fun _ => savedIn_of_same rfl rfl rfl
  · exact Triple.ite (fun _ => covers_generateSnapshot) fun _ => hset false

theorem covers_commitMajority : W.Covers C commitMajority := by
  refine backed_fields fun r _ => backed_orThrow fun t _ => ?_
  refine Triple.ite (fun _ => ?_) fun _ => covers_pure
  refine covers_bind (covers_assign fun _ => savedIn_of_same rfl rfl rfl) ?_
  exact covers_bind covers_applyCommitLogs covers_checkIfNeedSnapshot

theorem covers_handleRequestVoteRequest {m : RaftRequestVoteRequestMessage}
    (hi : W.input = .message (.requestVoteRequest m)) :
    W.Covers C (handleRequestVoteRequest m) := by
  have hrefuse : ∀ {D} (a : RaftRequestVoteResponseMessage), a.voteGranted = false →
      W.Covers D (push (.requestVoteResponse a)) := by
    intro D a ha
    refine covers_push fun r _ n d _ hg => ?_
    rw [ha] at hg
    cases hg
  refine backed_fields fun r _ => Triple.ite (fun _ => hrefuse _ rfl) fun _ => ?_
  refine Triple.bind (backed_observeTerm (-1) m.term) fun _ => backed_fields fun x _ => ?_
  refine Triple.ite (fun _ => hrefuse _ rfl) fun _ => ?_
  refine Triple.ite (fun _ => hrefuse _ rfl) fun _ => ?_
  refine write_then (D := fun y => y.term = x.term ∧ y.votedFor = m.fromId) ?_ ?_
  · rintro _ rfl
    exact ⟨rfl, rfl⟩
  · refine covers_push fun y hy n d hd _ => ⟨m, hi, hd.term.trans hy.1, hd.votedFor.trans hy.2⟩

theorem covers_handleRequestVoteResponse (m : RaftRequestVoteResponseMessage) :
    W.Covers C (handleRequestVoteResponse m) := by
  refine backed_fields fun r _ => Triple.ite (fun _ => covers_pure) fun _ => ?_
  refine Triple.ite (fun _ => covers_becomeFollower _ _) fun _ => ?_
  refine Triple.ite (fun _ => covers_pure) fun _ => ?_
  refine Triple.ite (fun _ => ?_) fun _ => covers_pure
  refine covers_bind (covers_assign fun _ => savedIn_of_same rfl rfl rfl) ?_
  refine backed_fields fun x _ => ?_
  exact Triple.ite (fun _ => covers_becomeLeader) fun _ => covers_pure

theorem covers_handleAppendEntriesResponse (m : RaftAppendEntriesResponseMessage) :
    W.Covers C (handleAppendEntriesResponse m) := by
  refine backed_fields fun r _ => Triple.ite (fun _ => covers_pure) fun _ => ?_
  refine Triple.ite (fun _ => covers_becomeFollower _ _) fun _ => ?_
  cases r.findPeer m.fromId with
  | none => exact covers_pure
  | some p =>
    refine Triple.ite (fun _ => ?_) fun _ => Triple.ite (fun _ => ?_) fun _ => covers_pure
    · refine covers_bind ?_ covers_commitMajority
      exact covers_assign fun _ => savedIn_of_same rfl rfl rfl
    · exact covers_assign fun _ => savedIn_of_same rfl rfl rfl

theorem covers_handleInstallSnapshotRequest (m : RaftInstallSnapshotRequestMessage) :
    W.Covers C (handleInstallSnapshotRequest m) := by
  have hpush : ∀ {D} (a : RaftInstallSnapshotResponseMessage),
      W.Covers D (push (.installSnapshotResponse a)) := fun a =>
    covers_push fun _ _ _ _ _ => trivial
  refine backed_fields fun r _ => Triple.ite (fun _ => hpush _) fun _ => ?_
  refine Triple.bind (backed_observeTerm m.fromId m.term) fun _ => backed_fields fun x _ => ?_
  refine Triple.ite (fun _ => hpush _) fun _ => ?_
  exact covers_push fun _ _ _ _ _ => trivial

theorem covers_handleInstallSnapshotResponse (m : RaftInstallSnapshotResponseMessage) :
    W.Covers C (handleInstallSnapshotResponse m) := by
  refine backed_fields fun r _ => Triple.ite (fun _ => covers_pure) fun _ => ?_
  refine Triple.ite (fun _ => covers_pure) fun _ => ?_
  refine Triple.ite (fun _ => covers_becomeFollower _ _) fun _ => ?_
  cases r.findPeer m.fromId with
  | none => exact covers_pure
  | some p => exact covers_assign fun _ => savedIn_of_same rfl rfl rfl

theorem covers_handleApplyCommitLogs (m : ApplyCommitLogsResponseMessage) :
    W.Covers C (handleApplyCommitLogs m) := by
  refine covers_bind (covers_assign fun _ => savedIn_of_same rfl rfl rfl) ?_
  refine covers_bind (covers_assign fun _ => savedIn_of_same rfl rfl rfl) ?_
  exact covers_checkIfNeedSnapshot

theorem covers_handleGenerateSnapshot (m : GenerateSnapshotResponseMessage) :
    W.Covers C (handleGenerateSnapshot m) := by
  refine Triple.ite (fun _ => covers_pure) fun _ => ?_
  refine covers_bind (covers_assign (truncateBefore_savedIn _)) ?_
  refine write_then (D := fun _ => True) (fun _ _ => trivial) ?_
  exact covers_assign fun _ => savedIn_of_same rfl rfl rfl

theorem covers_handleApplySnapshot (m : ApplySnapshotResponseMessage) :
    W.Covers C (handleApplySnapshot m) := by
  refine Triple.ite (fun _ => covers_push fun _ _ _ _ _ => trivial) fun _ => ?_
  refine covers_bind (covers_assign (truncateBefore_savedIn _)) (backed_fields fun r _ => ?_)
  refine covers_bind (covers_assign fun _ => savedIn_of_same rfl rfl rfl) ?_
  exact covers_push fun _ _ _ _ _ => trivial

theorem covers_handleKVOperationRequest (m : KVOperationRequestMessage) :
    W.Covers C (handleKVOperationRequest m) := by
  refine backed_fields fun r _ => Triple.ite (fun _ => ?_) fun _ => ?_
  · exact covers_push fun _ _ _ _ _ => trivial
  cases commandText m.opType m.key m.value with
  | none => exact covers_push fun _ _ _ _ _ => trivial
  | some command =>
    refine write_then (D := fun _ => True) (fun _ _ => trivial) ?_
    refine covers_bind (covers_assign fun _ => ?_) (covers_sendAppendEntries false)
    exact savedIn_of_same rfl rfl rfl

theorem covers_handleShutdown : W.Covers C handleShutdown := by
  refine covers_bind (covers_assign fun _ => savedIn_of_same rfl rfl rfl) ?_
  exact covers_push fun _ _ _ _ _ => trivial

/-! ### The AppendEntries request -/

theorem backed_syncLogs {r : Raft} (es : List RaftLogEntry) :
    Triple (W.Backed (· = r)) (syncLogs es) (fun _ => W.Backed (Carries r.term es))
      W.Broken := by
  refine Triple.ite (fun he => Triple.pure fun s hs => hs.mono fun h => ?_) fun _ => ?_
  · rw [List.isEmpty_iff.mp he]
    exact ⟨congrArg Raft.term h, List.nil_infix⟩
  · refine write_then (D := Carries r.term es) ?_ (backed_assign ?_ fun _ h => h)
    · rintro _ rfl
      exact ⟨rfl, (List.suffix_append _ _).isInfix⟩
    · exact fun _ _ => savedIn_of_same rfl rfl rfl

/-- A rejection vouches for nothing. -/
theorem refusal_savedIn {i : Input} {a : RaftAppendEntriesResponseMessage}
    (ha : a.success = false) (n : Raft) (d : RaftPersistData) :
    (RaftMessage.appendEntriesResponse a).SavedIn i n d := by
  intro hs
  rw [ha] at hs
  cases hs

/-- The handler returns from a truncation at the snapshot point only. -/
theorem pads_of_truncateAfter {r : Raft} {m : RaftAppendEntriesRequestMessage} {t : Nat}
    (hterm : r.term ≤ m.term) (hm : r.logMatch m.prevLogIndex m.prevLogTerm = some false)
    (hl : ¬ (r.truncateAfter m.prevLogIndex).logs <:+: r.logs)
    (ht : (r.truncateAfter m.prevLogIndex).getTermAt m.prevLogIndex = some t) :
    r.Pads (.message (.appendEntriesRequest m)) := by
  by_cases hin : m.prevLogIndex < r.baseIndex ∨ m.prevLogIndex > r.lastLogIndex
  · rw [truncateAfter, if_pos hin] at hl
    exact absurd List.infix_rfl hl
  have hpoint : m.prevLogIndex = r.lastIncludedIndex := by
    by_contra hne
    rw [truncateAfter_eq_self (fun h => absurd h.symm hne) ht] at hl
    exact hl List.infix_rfl
  have hlong : r.logs.length < (m.prevLogIndex - r.baseIndex).toNat := by
    by_contra hshort
    rw [truncateAfter, if_neg hin, setLogs_logs, resizeLogs,
      show (m.prevLogIndex - r.baseIndex).toNat - r.logs.length = 0 by omega,
      List.replicate_zero, List.append_nil] at hl
    exact hl (List.take_prefix _ _).isInfix
  exact ⟨hterm, hm, hpoint, by omega, by omega, hlong⟩

theorem pads_observe {r : Raft} {m : RaftAppendEntriesRequestMessage} (hterm : r.term ≤ m.term)
    (h : (r.observe m.fromId m.term).Pads (.message (.appendEntriesRequest m))) :
    r.Pads (.message (.appendEntriesRequest m)) := by
  unfold Raft.observe at h
  split at h
  · exact ⟨hterm, h.2⟩
  · exact h

theorem covers_rejectEntries {r : Raft} {i : Int} {a : RaftAppendEntriesResponseMessage}
    (ha : a.success = false) (hl : (r.truncateAfter i).logs <:+: r.logs) :
    W.Covers (· = r) (rejectEntries i a) := by
  refine Triple.bind (backed_assign (D := fun _ => True) ?_ fun _ _ => trivial) fun _ => ?_
  · rintro x rfl
    refine savedIn_of_logs ?_ ?_ hl <;> rw [truncateAfter_eq] <;> rfl
  refine covers_bind (covers_push fun _ _ n d _ => refusal_savedIn ha n d) ?_
  exact backed_fields fun x _ => backed_orThrow fun t _ => covers_pure

/-- A truncation may leave the vector ahead of the file, when it pads. -/
theorem told_rejectEntries {r : Raft} {i : Int} {a : RaftAppendEntriesResponseMessage}
    (ha : a.success = false)
    (hp : ∀ t, ¬ (r.truncateAfter i).logs <:+: r.logs →
      (r.truncateAfter i).getTermAt i = some t → W.before.Pads W.input) :
    Triple (W.Backed (· = r)) (rejectEntries i a) (fun _ => W.Told) W.Broken := by
  by_cases hl : (r.truncateAfter i).logs <:+: r.logs
  · exact (covers_rejectEntries ha hl).told
  -- from here on the file lacks the padding, and the rejection is all that is still pushed
  refine Triple.bind (Q := fun _ => W.Said (· = r.truncateAfter i)) ?_ fun _ => ?_
  · refine Triple.pre (P := W.Said (· = r)) (said_assign ?_) fun _ hs => hs.toSaid
    exact fun x hx => congrArg (truncateAfter i) hx
  refine Triple.bind (said_push fun n d => refusal_savedIn ha n d) fun _ => ?_
  refine triple_fields fun x => Triple.bind (Q := fun _ => W.Told) ?_ fun _ =>
    Triple.pure fun _ hs => hs
  refine triple_orThrow ?_ fun _ _ hs => hs.1.broken
  rintro t s ht ⟨hs, rfl⟩
  rw [hs.side] at ht
  exact ⟨fun x hx hi => hs.said x hx hi s.raft, fun hn => absurd (hp t hl ht) hn⟩

/-- The answer to an accepted request is the last push of the handler. -/
theorem told_push {m : RaftMessage}
    (hm : ∀ r, C r → ∀ d, r.SavedIn d → m.SavedIn W.input r d) :
    Triple (W.Backed C) (push m) (fun _ => W.Told) W.Broken := by
  refine triple_push fun s hs => ⟨fun x hx hi => ?_, fun _ => ?_⟩
  · cases mem_push hx with
    | inl h => exact hs.said x h hi s.raft
    | inr h =>
      subst h
      exact hm s.raft hs.side _ (hs.saved hi)
  · rw [out_push]
    exact hs.saved

theorem told_handleAppendEntriesRequest {m : RaftAppendEntriesRequestMessage}
    (hi : W.input = .message (.appendEntriesRequest m)) :
    Triple (W.Backed (· = W.before)) (handleAppendEntriesRequest m) (fun _ => W.Told)
      W.Broken := by
  refine backed_fields fun r hr => ?_
  subst hr
  refine Triple.ite (fun _ => ?_) fun hlt => ?_
  · exact (covers_push fun _ _ n d _ => refusal_savedIn rfl n d).told
  refine Triple.bind (backed_observeTerm m.fromId m.term) fun _ => backed_fields fun x hx => ?_
  refine Triple.bind (Q := fun b s => W.Backed (· = x) s ∧
    x.logMatch m.prevLogIndex m.prevLogTerm = some b) ?_ fun b => ?_
  · exact triple_orThrow (fun _ _ hb hs => ⟨hs, hb⟩) fun _ _ hs => hs.broken
  refine Triple.ite (fun _ => ?_) fun hb => ?_
  · refine Triple.bind ((backed_syncLogs m.entries).pre fun _ hs => hs.1) fun _ => ?_
    refine Triple.bind (backed_followCommit m.leaderCommit) fun _ => ?_
    refine backed_fields fun y hy => told_push ?_
    rintro _ rfl d hd _
    refine ⟨m, hi, hd.term.trans hy.1, ?_, hd.entries⟩
    exact (hy.2.map RaftLogEntry.core).trans hd.entries
  · rintro s ⟨hs, hm⟩
    rw [Bool.eq_false_of_not_eq_true hb] at hm
    refine told_rejectEntries rfl (fun t hl ht => ?_) s hs
    rw [hi]
    have hle := Nat.le_of_not_lt hlt
    have hterm : x.term ≤ m.term := by
      rw [hx]
      unfold Raft.observe
      split
      · exact Nat.le_refl _
      · exact hle
    exact pads_observe hle (hx ▸ pads_of_truncateAfter hterm hm hl ht)

theorem told_command : Triple (W.Backed (· = W.before)) (command W.input) (fun _ => W.Told)
    W.Broken := by
  cases hi : W.input with
  | electionTimeout =>
    refine Covers.told (backed_fields fun r _ => ?_)
    exact Triple.ite (fun _ => covers_becomeCandidate) fun _ => covers_pure
  | heartbeatTimeout =>
    refine Covers.told (backed_fields fun r _ => ?_)
    exact Triple.ite (fun _ => covers_sendAppendEntries true) fun _ => covers_pure
  | message m =>
    cases m with
    | requestVoteRequest m => exact (covers_handleRequestVoteRequest hi).told
    | requestVoteResponse m => exact (covers_handleRequestVoteResponse m).told
    | appendEntriesRequest m => exact told_handleAppendEntriesRequest hi
    | appendEntriesResponse m => exact (covers_handleAppendEntriesResponse m).told
    | installSnapshotRequest m => exact (covers_handleInstallSnapshotRequest m).told
    | installSnapshotResponse m => exact (covers_handleInstallSnapshotResponse m).told
    | kvOperationRequest m => exact (covers_handleKVOperationRequest m).told
    | applyCommitLogsResponse m => exact (covers_handleApplyCommitLogs m).told
    | generateSnapshotResponse m => exact (covers_handleGenerateSnapshot m).told
    | applySnapshotResponse m => exact (covers_handleApplySnapshot m).told
    | shutdown => exact covers_handleShutdown.told
    | _ => exact covers_pure.told

/-- The output of the step, whether it returns or throws. -/
def output (W : Setting) : Output := W.start.after W.ok (W.before.react W.input).effects

theorem told_react (hsent : W.start.sent = [])
    (hsaved : W.start.file.intact = true → W.before.SavedIn W.start.file.contents) :
    (∀ x ∈ W.output.sent, x.file.intact = true →
      x.message.SavedIn W.input (W.before.react W.input).raft x.file.contents) ∧
    ((W.before.react W.input).thrown = false → ¬ W.before.Pads W.input →
      W.output.file.intact = true →
        (W.before.react W.input).raft.SavedIn W.output.file.contents) := by
  have hstart : W.Backed (· = W.before) { raft := W.before, effects := [] } := by
    refine ⟨⟨fun x hx => ?_, rfl⟩, hsaved⟩
    rw [show (W.out { raft := W.before, effects := [] }).sent = [] from hsent] at hx
    cases hx
  have ht := told_command { raft := W.before, effects := [] } hstart
  unfold output Raft.react runCommand
  revert ht
  cases (command W.input).run { raft := W.before, effects := [] } with
  | ok a s => exact fun ht => ⟨ht.said, fun _ => ht.saved⟩
  | error e s =>
    intro ht
    refine ⟨fun x hx hi => ht.said x hx hi s.raft, fun hn => ?_⟩
    cases hn

end Setting

/-! ## Runs -/

namespace Author

/-- The node is backed by an intact file, and so was every message at its push. -/
structure Sure (a : Author) : Prop where
  saved : a.alive = true → a.file.intact = true → a.raft.SavedIn a.file.contents
  turns : ∀ t ∈ a.turns, ∀ x ∈ t.sent, x.file.intact = true →
    x.message.SavedIn t.input t.node x.file.contents

variable {ok : Nat → Bool} {a b : Author} {i : Input}

theorem sure_init (id : Int) (ids : List Int) (data : Option RaftPersistData) :
    (init id ids data).Sure where
  saved := fun _ _ => by
    rw [← PersistFile.restart_contents id ids]
    exact savedIn_self _
  turns := fun t ht => by cases ht

theorem Sure.step (h : a.Sure) (hs : a.step ok i = some b) : b.Sure := by
  unfold Author.step at hs
  split at hs
  next ha =>
    obtain rfl := Option.some.inj hs
    let W : Setting := {
      ok := ok, input := i, before := a.raft, start := { file := a.file, sent := [] } }
    obtain ⟨hsaid, hsaved⟩ := W.told_react rfl (h.saved ha)
    refine ⟨fun hb hi => ?_, fun t ht => ?_⟩
    · obtain ⟨hint, hpads⟩ := Bool.and_eq_true_iff.mp hi
      refine hsaved (by simpa using hb) (by simpa using hpads) hint
    · rcases List.mem_append.mp ht with ht | ht
      · exact h.turns t ht
      · rw [List.mem_singleton.mp ht]
        exact hsaid
  next => cases hs

/-- The runs of a node from this file.  The inputs are any at all. -/
def Runs (ok : Nat → Bool) (id : Int) (ids : List Int) (data : Option RaftPersistData)
    (is : List Input) (a : Author) : Prop :=
  Transition.Run (step ok) (fun _ _ => True) (init id ids data) is a

variable {id : Int} {ids : List Int} {data : Option RaftPersistData} {is : List Input}

theorem Runs.sure (h : Runs ok id ids data is a) : a.Sure :=
  Transition.Run.invariant (fun _ _ _ hs _ hst => hs.step hst) h (sure_init id ids data)

/-- A run that pushes a message with the property `p`, found by evaluation. -/
theorem Runs.of_exec (ok : Nat → Bool) (id : Int) (ids : List Int)
    (data : Option RaftPersistData) (is : List Input) (p : Posted → Bool)
    (h : (Transition.exec (step ok) (fun _ _ => True) (init id ids data) is).map
      (fun a => a.turns.any fun t => t.sent.any p) = some true) :
    ∃ a, Runs ok id ids data is a ∧ ∃ t ∈ a.turns, ∃ x ∈ t.sent, p x = true := by
  obtain ⟨a, hr, ha⟩ := Transition.Run.exists_of_exec h
  obtain ⟨t, ht, hp⟩ := List.any_eq_true.mp ha
  exact ⟨a, hr, t, ht, List.any_eq_true.mp hp⟩

end Author

/-- A message is backed by the persist file, when the last call of `_Persist` before it has
succeeded and no truncation has padded the vector since. -/
theorem savedIn_of_intact (ok : Nat → Bool) (id : Int) (ids : List Int)
    (data : Option RaftPersistData) (is : List Input) (a : Author)
    (hr : Author.Runs ok id ids data is a) (t : Turn) (ht : t ∈ a.turns) (x : Posted)
    (hx : x ∈ t.sent) (hi : x.file.intact = true) :
    x.message.SavedIn t.input t.node x.file.contents :=
  hr.sure.turns t ht x hx hi

/-- A candidate asks a fresh node for its vote. -/
def voteAsked : Input :=
  .message (.requestVoteRequest {
    seq := 7
    fromId := 0
    term := 1
    lastLogIndex := 0
    lastLogTerm := 0
    toId := 1 })

def voteGiven : RaftMessage :=
  .requestVoteResponse { seq := 7, term := 1, voteGranted := true }

/-- The vote is saved although the call before, that of the new term, has failed. -/
theorem savedIn_second_call :
    ∃ a, Author.Runs (· = 1) 1 [0, 1, 2] none [voteAsked] a ∧ ∃ t ∈ a.turns, ∃ x ∈ t.sent,
      x.message = voteGiven ∧ x.message.SavedIn t.input t.node x.file.contents := by
  obtain ⟨a, hr, t, ht, x, hx, hp⟩ := Author.Runs.of_exec (· = 1) 1 [0, 1, 2] none [voteAsked]
    (fun x => decide (x.message = voteGiven ∧ x.file.intact = true)) (by decide +kernel)
  obtain ⟨hm, hi⟩ := of_decide_eq_true hp
  exact ⟨a, hr, t, ht, x, hx, hm, savedIn_of_intact _ _ _ _ _ a hr t ht x hx hi⟩

/-- The file cannot be opened, and the node gives its vote away all the same. -/
theorem vote_not_saved :
    ¬ ∀ (ok : Nat → Bool) (id : Int) (ids : List Int) (data : Option RaftPersistData)
      (is : List Input) (a : Author), Author.Runs ok id ids data is a →
        ∀ t ∈ a.turns, ∀ x ∈ t.sent, x.message.SavedIn t.input t.node x.file.contents := by
  intro h
  obtain ⟨a, hr, t, ht, x, hx, hp⟩ := Author.Runs.of_exec (fun _ => false) 1 [0, 1, 2] none
    [voteAsked] (fun x => decide (x.message = voteGiven ∧ x.file.contents.term = 0))
    (by decide +kernel)
  obtain ⟨hm, hterm⟩ := of_decide_eq_true hp
  have hsaved := h _ _ _ _ _ a hr t ht x hx
  rw [hm] at hsaved
  obtain ⟨m, _, hone, _⟩ := hsaved rfl
  rw [hterm] at hone
  cases hone

end WWRaftKV
