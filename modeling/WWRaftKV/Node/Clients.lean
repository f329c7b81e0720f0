/-
Every operation of a client is answered once, through its own closure.

The clerk finds a closure again by the uuid and the sequence id alone.  So the keys of the
operations that wait have to be distinct, and a write needs a key that is not empty.  The
entry of a write is then applied under the key of its operation: the log, the entries on
their way to the clerk and the table of closures are kept in step.
-/
import WWRaftKV.Node.Clerk
import WWRaftKV.Node.HandOver

namespace WWRaftKV

/-- The entry carries a key that the clerk answers under. -/
def RaftLogEntry.Named (e : RaftLogEntry) : Prop := e.uuid ≠ [] ∧ e.sequenceId ≠ 0

instance (e : RaftLogEntry) : Decidable e.Named := inferInstanceAs (Decidable (_ ∧ _))

/-- The key of an operation on its way to the core. -/
def RaftMessage.operationKey : RaftMessage → Option (Str × Nat)
  | .kvOperationRequest m => some (m.uuid, m.seq)
  | _ => none

namespace RaftClerk

open Raft (applyWindow applyWindow_getElem?)

/-! ## What the clients and the peers keep to -/

def HasAnswered (c : RaftClerk) (n : Nat) : Prop := ∃ a ∈ c.answers, a.closure = n

/-- A write has a key, and no entry of a peer takes the place of a write that waits and that
it is a copy of. -/
def Takes (c : RaftClerk) : RaftMessage → Prop
  | .kvOperationRequest m => c.process.raft.writeOf m ≠ none → m.uuid ≠ [] ∧ m.seq ≠ 0
  | .appendEntriesRequest m => c.process.raft.Accepts m →
    ∀ x ∈ m.entries.mapIdx fun (k : Nat) e => (c.process.raft.nextPlace + k, e),
      ∀ w ∈ c.writes, w.index = x.1 → w.entry.core = x.2.core → c.HasAnswered w.operation
  | _ => True

/-- The key of an operation is not in use when it arrives. -/
def Admits (c : RaftClerk) : ClerkEvent → Prop
  | .operation m => c.pendingKvRequests (m.uuid, m.seq) = none
  | .handle => ∀ x ∈ c.process.outter.head?, c.Takes x.msg
  | _ => True

structure Orderly (c : RaftClerk) (e : ClerkEvent) : Prop where
  admits : c.Admits e
  forward : c.process.Obeys CommitsForward (e.event true)

section Decide

variable (c : RaftClerk) (e : ClerkEvent) (m : RaftMessage)

instance (n : Nat) : Decidable (c.HasAnswered n) :=
  inferInstanceAs (Decidable (∃ a ∈ c.answers, a.closure = n))

instance : Decidable (c.Takes m) := by
  induction m using RaftMessage.casesOn <;> unfold Takes <;> infer_instance

instance : Decidable (c.Admits e) := by
  induction e using ClerkEvent.casesOn <;> unfold Admits <;> infer_instance

instance : Decidable (c.Orderly e) :=
  decidable_of_iff (c.Admits e ∧ c.process.Obeys CommitsForward (e.event true))
    ⟨fun h => ⟨h.1, h.2⟩, fun h => ⟨h.admits, h.forward⟩⟩

end Decide

/-! ## The property -/

/-- No closure runs twice, every response goes into the closure of its operation, every
lookup finds a closure, and a write is answered once its entry has been applied: the entry
as the operation made it, or as a peer gives it back. -/
structure Answered (c : RaftClerk) : Prop where
  once : (c.answers.map (·.closure)).Nodup
  own : ∀ a ∈ c.answers, a.cause = some a.closure
  found : c.misses = []
  applied : ∀ w ∈ c.writes, ∀ e, (w.index, e) ∈ c.applied.drop w.since →
    e = w.entry ∨ e = w.entry.core.entry → c.HasAnswered w.operation

/-! ## The books -/

/-- The entry may come as number `k` to the clerk: it is that of a write without an answer,
or no copy of a write that waits. -/
def Own (c : RaftClerk) (k : Nat) (i : Int) (e : RaftLogEntry) : Prop :=
  (e.Named ∧ ∃ w ∈ c.writes, w.index = i ∧ w.entry = e ∧ ¬ c.HasAnswered w.operation) ∨
    (¬ e.Named ∧ ∀ w ∈ c.writes, w.since ≤ k → w.index = i → e = w.entry.core.entry →
      c.HasAnswered w.operation)

/-- What is known of a write. -/
structure Wrote (c : RaftClerk) (key : Nat → Str × Nat) (handed : Nat) (w : Write) : Prop where
  operation : w.operation < c.handled
  key : key w.operation = (w.entry.uuid, w.entry.sequenceId)
  named : w.entry.Named
  command : w.entry.command ≠ []
  since : w.since ≤ handed

/-- `key n` is the key of operation `n`, and `todo` is what the clerk still has to apply of
the request that it is at. -/
structure Books (c : RaftClerk) (key : Nat → Str × Nat) (a : Int) (p : Process)
    (todo : List (Int × RaftLogEntry)) : Prop where
  counted : c.handled ≤ c.operations
  waiting : p.outter.filterMap (·.msg.operationKey) =
    (List.range (c.operations - c.handled)).map fun k => key (c.handled + k)
  wire : ∀ x ∈ p.outter, ∀ m, x.msg = .appendEntriesRequest m →
    ∀ e ∈ m.entries, e.core.entry = e
  answering : p.inner.filterMap (·.msg.answerKey) = c.responding.map key
  responding : c.responding.Nodup
  respond : ∀ n ∈ c.responding, n < c.handled ∧ ¬ c.HasAnswered n ∧
    ∀ w ∈ c.writes, w.operation ≠ n
  sorted : c.writes.Pairwise fun w w' => w'.operation < w.operation
  wrote : ∀ w ∈ c.writes, c.Wrote key p.handed.length w
  answeredLt : ∀ n, c.HasAnswered n → n < c.handled
  registered : ∀ n < c.operations, ¬ c.HasAnswered n → c.pendingKvRequests (key n) = some n
  reused : ∀ m < c.operations, ∀ n < m, key n = key m → c.HasAnswered n
  split : c.applied ++ (todo ++ handedBy (p.inner.map (·.msg))) = p.handed
  indices : p.handed.map (·.1) = applyWindow a (a + p.handed.length)
  log : ∀ i e, a + p.handed.length < i → p.raft.entryAt i = some e →
    c.Own p.handed.length i e
  under : ∀ k x, c.applied.length ≤ k → p.handed[k]? = some x → c.Own k x.1 x.2

section Books

variable {c c' : RaftClerk} {key : Nat → Str × Nat} {a : Int} {p p' : Process}
  {todo : List (Int × RaftLogEntry)} {n k : Nat} {i : Int} {e : RaftLogEntry}

/-- Number `k` of the entries handed over has the index `a + 1 + k`. -/
theorem Books.index (h : c.Books key a p todo) {x : Int × RaftLogEntry}
    (hx : p.handed[k]? = some x) : x.1 = a + 1 + k := index_of_window h.indices hx

/-- The clerk's part of the books when the process changes elsewhere. -/
theorem Books.congr (h : c.Books key a p todo) (hraft : p'.raft = p.raft)
    (hhistory : p'.history = p.history) (hinner : p'.inner = p.inner)
    (hwaiting : p'.outter.filterMap (·.msg.operationKey) =
      p.outter.filterMap (·.msg.operationKey))
    (hwire : ∀ x ∈ p'.outter, ∀ m, x.msg = .appendEntriesRequest m →
      ∀ e ∈ m.entries, e.core.entry = e) : c.Books key a p' todo := by
  have hhanded : p'.handed = p.handed := congrArg (List.flatMap CoreStep.handed) hhistory
  constructor
  · exact h.counted
  · rw [hwaiting]
    exact h.waiting
  · exact hwire
  · rw [hinner]
    exact h.answering
  · exact h.responding
  · exact h.respond
  · exact h.sorted
  · rw [hhanded]
    exact h.wrote
  · exact h.answeredLt
  · exact h.registered
  · exact h.reused
  · rw [hhanded, hinner]
    exact h.split
  · rw [hhanded]
    exact h.indices
  · rw [hhanded, hraft]
    exact h.log
  · rw [hhanded]
    exact h.under

/-- Two writes of one operation are one. -/
theorem Books.write_unique (h : c.Books key a p todo) {w w' : Write} (hw : w ∈ c.writes)
    (hw' : w' ∈ c.writes) (hne : w ≠ w') : w.operation ≠ w'.operation := by
  have hsorted : c.writes.Pairwise fun v v' : Write => v.operation ≠ v'.operation :=
    h.sorted.imp fun hlt => Nat.ne_of_gt hlt
  have hsymm : Std.Symm fun v v' : Write => v.operation ≠ v'.operation := ⟨fun _ _ h => h.symm⟩
  exact hsorted.forall hw hw' hne

/-! ### Answering -/

theorem answer_eq (h : c.pendingKvRequests s = some n) (cause : Option Nat)
    (status : StatusCode) (payload : Str) :
    c.answer s cause status payload = { c with
      pendingKvRequests := Function.update c.pendingKvRequests s none
      answers := c.answers ++
        [{ cause := cause, closure := n, status := status, payload := payload }] } := by
  rw [answer, h]

/-- Operation `n` has been answered, and nothing else has changed. -/
structure Answers (c c' : RaftClerk) (n : Nat) : Prop where
  has : ∀ m, c'.HasAnswered m ↔ c.HasAnswered m ∨ m = n
  writes : c'.writes = c.writes
  applied : c'.applied = c.applied

theorem answers_append (c : RaftClerk) (f : Str × Nat → Option Nat) (x : Answer) :
    Answers c { c with pendingKvRequests := f, answers := c.answers ++ [x] } x.closure where
  has := by
    intro m
    unfold HasAnswered
    simp only [List.mem_append, List.mem_singleton]
    constructor
    · rintro ⟨y, hy | rfl, rfl⟩
      · exact .inl ⟨y, hy, rfl⟩
      · exact .inr rfl
    · rintro (⟨y, hy, rfl⟩ | rfl)
      · exact ⟨y, .inl hy, rfl⟩
      · exact ⟨x, .inr rfl, rfl⟩
  writes := rfl
  applied := rfl

/-- An entry of another write stays as it was. -/
theorem Own.answers (h : c.Own k i e) (ha : Answers c c' n)
    (hne : ∀ w ∈ c.writes, w.index = i → w.operation ≠ n) : c'.Own k i e := by
  unfold Own
  rw [ha.writes]
  rcases h with ⟨hn, w, hw, hi, he, hopen⟩ | hcopy
  · left
    refine ⟨hn, w, hw, hi, he, ?_⟩
    rw [ha.has, not_or]
    exact ⟨hopen, hne w hw hi⟩
  · obtain ⟨hplain, hcopy⟩ := hcopy
    refine .inr ⟨hplain, fun w hw hsince hi heq => ?_⟩
    exact (ha.has _).mpr (.inl (hcopy w hw hsince hi heq))

/-- One more answer, into the closure of its operation. -/
theorem Answered.answer (h : c.Answered) (f : Str × Nat → Option Nat)
    (hopen : ¬ c.HasAnswered n) (status : StatusCode) (payload : Str) :
    Answered { c with
      pendingKvRequests := f
      answers := c.answers ++
        [{ cause := some n, closure := n, status := status, payload := payload }] } where
  once := by
    simp only [List.map_append, List.map_cons, List.map_nil]
    rw [← List.concat_eq_append]
    refine List.Nodup.concat ?_ h.once
    intro hmem
    obtain ⟨z, hz, hclosure⟩ := List.mem_map.mp hmem
    exact hopen ⟨z, hz, hclosure⟩
  own := by
    intro x hx
    rcases List.mem_append.mp hx with hx | hx
    · exact h.own x hx
    · rw [List.mem_singleton.mp hx]
  found := h.found
  applied := by
    intro w hw e he hcopy
    obtain ⟨x, hx, hclosure⟩ := h.applied w hw e he hcopy
    exact ⟨x, List.mem_append_left _ hx, hclosure⟩

/-- An operation that waits is answered: the core has answered it, or its entry has been
applied. -/
theorem Books.answer (h : c.Books key a p todo) (hn : n < c.handled)
    (hopen : ¬ c.HasAnswered n) (hresp : n ∉ c.responding)
    (hwrite : ∀ w ∈ c.writes, w.operation = n → w.index ≤ a + c.applied.length)
    (x : Answer) (hx : x.closure = n) :
    Books { c with
      pendingKvRequests := Function.update c.pendingKvRequests (key n) none
      answers := c.answers ++ [x] } key a p todo := by
  have hlt : n < c.operations := Nat.lt_of_lt_of_le hn h.counted
  have ha := answers_append c (Function.update c.pendingKvRequests (key n) none) x
  rw [hx] at ha
  have hlength : c.applied.length ≤ p.handed.length := by
    rw [← h.split, List.length_append]
    exact Nat.le_add_right _ _
  have hkeep : ∀ {k i e}, a + c.applied.length < i → c.Own k i e →
      Own { c with
        pendingKvRequests := Function.update c.pendingKvRequests (key n) none
        answers := c.answers ++ [x] } k i e := by
    intro k i e hi hown
    apply hown.answers ha
    rintro w hw rfl heq
    have := hwrite w hw heq
    omega
  constructor
  · exact h.counted
  · exact h.waiting
  · exact h.wire
  · exact h.answering
  · exact h.responding
  · intro m hm
    obtain ⟨hlt, hopen, hne⟩ := h.respond m hm
    refine ⟨hlt, ?_, hne⟩
    rw [ha.has, not_or]
    exact ⟨hopen, fun heq => hresp (heq ▸ hm)⟩
  · exact h.sorted
  · intro w hw
    obtain ⟨hop, hkey, hnamed, hcommand, hsince⟩ := h.wrote w hw
    exact ⟨hop, hkey, hnamed, hcommand, hsince⟩
  · intro m hm
    rcases (ha.has m).mp hm with hm | rfl
    · exact h.answeredLt m hm
    · exact hn
  · intro m hm hm'
    rw [ha.has, not_or] at hm'
    have hreg := h.registered m hm hm'.1
    have hne : key m ≠ key n := by
      intro heq
      rw [heq, h.registered n hlt hopen] at hreg
      exact hm'.2 (Option.some.inj hreg).symm
    show Function.update c.pendingKvRequests (key n) none (key m) = some m
    rw [Function.update_of_ne hne, hreg]
  · intro m hm n' hn' heq
    exact (ha.has n').mpr (.inl (h.reused m hm n' hn' heq))
  · exact h.split
  · exact h.indices
  · intro i e hi he
    exact hkeep (by omega) (h.log i e hi he)
  · intro k y hk hy
    have hindex := h.index hy
    have hk' : c.applied.length ≤ k := hk
    exact hkeep (by omega) (h.under k y hk hy)

/-! ### One entry -/

/-- The newest write of a sorted list that passes a test. -/
theorem find_newest {l : List Write} (hs : l.Pairwise fun w w' => w'.operation < w.operation)
    {q : Write → Bool} {w : Write} (hw : w ∈ l) (hq : q w = true) :
    ∃ w' ∈ l, l.find? q = some w' ∧ q w' = true ∧ w.operation ≤ w'.operation := by
  induction l with
  | nil => exact absurd hw List.not_mem_nil
  | cons v l ih =>
    obtain ⟨hv, hs⟩ := List.pairwise_cons.mp hs
    by_cases hqv : q v = true
    · refine ⟨v, List.mem_cons_self, List.find?_cons_of_pos hqv, hqv, ?_⟩
      rcases List.mem_cons.mp hw with rfl | hw
      · exact Nat.le_refl _
      · exact Nat.le_of_lt (hv w hw)
    · have hw : w ∈ l := by
        rcases List.mem_cons.mp hw with rfl | hw
        · exact absurd hq hqv
        · exact hw
      obtain ⟨w', hw', hfind, hrest⟩ := ih hs hw
      exact ⟨w', List.mem_cons_of_mem _ hw', by rw [List.find?_cons_of_neg hqv, hfind], hrest⟩

/-- The clerk knows whose entry it applies. -/
theorem Books.writer (h : c.Books key a p todo) {w : Write} (hw : w ∈ c.writes)
    (hopen : ¬ c.HasAnswered w.operation) :
    c.writer (w.index, w.entry) = some w.operation := by
  obtain ⟨w', hw', hfind, hq, hle⟩ := find_newest h.sorted hw
    (q := fun v => v.index = w.index ∧ v.entry = w.entry) (by simp)
  have hentry : w'.entry = w.entry := (of_decide_eq_true hq).2
  have heq : w'.operation = w.operation := by
    by_contra hne
    have hlt : w.operation < w'.operation := by omega
    have hkey : key w.operation = key w'.operation := by
      rw [(h.wrote w hw).key, (h.wrote w' hw').key, hentry]
    have hcount := h.counted
    exact hopen (h.reused _ (by have := (h.wrote w' hw').operation; omega) _ hlt hkey)
  rw [RaftClerk.writer, hfind, Option.map_some, heq]

theorem mem_drop_concat {α : Type} {l : List α} {x y : α} {n : Nat} :
    y ∈ (l ++ [x]).drop n ↔ y ∈ l.drop n ∨ (n ≤ l.length ∧ y = x) := by
  rw [List.drop_append, List.mem_append]
  apply or_congr_right
  by_cases hn : n ≤ l.length
  · rw [Nat.sub_eq_zero_of_le hn]
    simp [hn]
  · have hpos : [x].drop (n - l.length) = [] := List.drop_eq_nil_of_le (by simp; omega)
    rw [hpos]
    simp [hn]

/-- The place of the next entry among all that have been handed over. -/
theorem Books.next {x : Int × RaftLogEntry} (h : c.Books key a p (x :: todo)) :
    p.handed[c.applied.length]? = some x := by
  rw [← h.split, List.getElem?_append_right (Nat.le_refl _), Nat.sub_self]
  rfl

/-- The clerk has applied the next entry, and has answered nobody yet. -/
theorem Books.advance {x : Int × RaftLogEntry} (h : c.Books key a p (x :: todo)) (s : StrStore) :
    Books { c with kvStore := s, applied := c.applied ++ [x] } key a p todo where
  counted := h.counted
  waiting := h.waiting
  wire := h.wire
  answering := h.answering
  responding := h.responding
  respond := h.respond
  sorted := h.sorted
  wrote := by
    intro w hw
    obtain ⟨hop, hkey, hnamed, hcommand, hsince⟩ := h.wrote w hw
    exact ⟨hop, hkey, hnamed, hcommand, hsince⟩
  answeredLt := h.answeredLt
  registered := h.registered
  reused := h.reused
  split := by
    rw [← h.split]
    simp
  indices := h.indices
  log := h.log
  under := by
    intro k y hk hy
    apply h.under k y _ hy
    simp only [List.length_append, List.length_singleton] at hk
    omega

/-- The property after an entry, when its write has been answered. -/
theorem Answered.advance {x : Int × RaftLogEntry} (h : c.Answered)
    (hx : ∀ w ∈ c.writes, w.since ≤ c.applied.length → w.index = x.1 →
      x.2 = w.entry ∨ x.2 = w.entry.core.entry → c.HasAnswered w.operation) (s : StrStore) :
    Answered { c with kvStore := s, applied := c.applied ++ [x] } where
  once := h.once
  own := h.own
  found := h.found
  applied := by
    intro w hw e he hcopy
    rcases mem_drop_concat.mp he with he | ⟨hsince, heq⟩
    · exact h.applied w hw e he hcopy
    · rw [← heq] at hx
      exact hx w hw hsince rfl hcopy

/-- Two writes under one key: the earlier one has been answered. -/
theorem Books.same_key (h : c.Books key a p todo) {w w' : Write} (hw : w ∈ c.writes)
    (hw' : w' ∈ c.writes) (heq : w'.entry = w.entry) (hopen : ¬ c.HasAnswered w.operation) :
    w'.operation = w.operation ∨ c.HasAnswered w'.operation := by
  have hkey : key w'.operation = key w.operation := by
    rw [(h.wrote w hw).key, (h.wrote w' hw').key, heq]
  have hlt := Nat.lt_of_lt_of_le (h.wrote w hw).operation h.counted
  have hlt' := Nat.lt_of_lt_of_le (h.wrote w' hw').operation h.counted
  rcases Nat.lt_trichotomy w'.operation w.operation with hn | hn | hn
  · exact .inr (h.reused _ hlt _ hn hkey)
  · exact .inl hn
  · exact absurd (h.reused _ hlt' _ hn hkey.symm) hopen

/-- The entry of a write that waits: its closure is found and runs. -/
theorem Books.applyNamed {x : Int × RaftLogEntry} (h : c.Books key a p (x :: todo))
    (hgood : c.Answered) {w : Write} (hw : w ∈ c.writes) (hindex : w.index = x.1)
    (hentry : w.entry = x.2) (hopen : ¬ c.HasAnswered w.operation) (status : StatusCode)
    (s : StrStore) :
    Answered (RaftClerk.answer { c with kvStore := s, applied := c.applied ++ [x] }
        (x.2.uuid, x.2.sequenceId) (c.writer x) status []) ∧
      Books (RaftClerk.answer { c with kvStore := s, applied := c.applied ++ [x] }
        (x.2.uuid, x.2.sequenceId) (c.writer x) status []) key a p todo := by
  have hwrote := h.wrote w hw
  have hkey : key w.operation = (x.2.uuid, x.2.sequenceId) := by
    rw [hwrote.key, hentry]
  have hpending : c.pendingKvRequests (x.2.uuid, x.2.sequenceId) = some w.operation := by
    rw [← hkey]
    exact h.registered _ (Nat.lt_of_lt_of_le hwrote.operation h.counted) hopen
  have hwriter : c.writer x = some w.operation := by
    have := h.writer hw hopen
    rwa [hindex, hentry] at this
  have hplace := h.index h.next
  rw [answer_eq (c := { c with kvStore := s, applied := c.applied ++ [x] }) hpending, hwriter]
  constructor
  · apply (hgood.answer _ hopen status []).advance
    rintro w' hw' _ _ (heq | heq)
    · rcases h.same_key hw hw' (heq.symm.trans hentry.symm) hopen with heq | ⟨y, hy, hclosure⟩
      · exact ⟨_, List.mem_append_right _ (List.mem_singleton_self _), heq.symm⟩
      · exact ⟨y, List.mem_append_left _ hy, hclosure⟩
    · have hnamed := hwrote.named
      rw [hentry, heq] at hnamed
      exact absurd rfl hnamed.1
  · rw [← hkey]
    apply (h.advance s).answer hwrote.operation hopen
    · intro hm
      exact (h.respond _ hm).2.2 w hw rfl
    · intro w' hw' heq
      have hself : w' = w := by
        by_contra hne
        exact h.write_unique hw' hw hne heq
      show w'.index ≤ a + ((c.applied ++ [x]).length : Int)
      rw [hself, List.length_append, List.length_singleton]
      omega
    · rfl

/-- One round of the loop. -/
theorem Books.applyEntry {x : Int × RaftLogEntry} (h : c.Books key a p (x :: todo))
    (hgood : c.Answered) (draws : List Bool) :
    (c.applyEntry x draws).Answered ∧
      ((c.applyEntry x draws).alive = true → (c.applyEntry x draws).Books key a p todo) := by
  have hown := h.under _ x (Nat.le_refl _) h.next
  unfold RaftClerk.applyEntry
  cases applyCommand c.kvStore x.2.command draws with
  | none =>
    exact ⟨⟨hgood.once, hgood.own, hgood.found, hgood.applied⟩, fun hdead => (nomatch hdead)⟩
  | some r =>
    obtain ⟨status, s⟩ := r
    rcases hown with ⟨hnamed, w, hw, hindex, hentry, hopen⟩ | ⟨hplain, hcopy⟩
    · have hdone := h.applyNamed hgood hw hindex hentry hopen status s
      dsimp only
      rw [if_pos (show x.2.uuid ≠ [] ∧ x.2.sequenceId ≠ 0 from hnamed)]
      exact ⟨hdone.1, fun _ => hdone.2⟩
    · dsimp only
      rw [if_neg (show ¬ (x.2.uuid ≠ [] ∧ x.2.sequenceId ≠ 0) from hplain)]
      refine ⟨hgood.advance ?_ s, fun _ => h.advance s⟩
      rintro w hw hsince hindex (heq | heq)
      · rw [heq] at hplain
        exact absurd (h.wrote w hw).named hplain
      · exact hcopy w hw hsince hindex heq

/-- The loop over what a request brings. -/
theorem Books.applyLoop {xs : List (Int × RaftLogEntry)} (draws : List (List Bool))
    (h : c.Books key a p (xs ++ todo)) (hgood : c.Answered) :
    (c.applyLoop xs draws).Answered ∧
      ((c.applyLoop xs draws).alive = true → (c.applyLoop xs draws).Books key a p todo) := by
  induction xs generalizing c draws with
  | nil => exact ⟨hgood, fun _ => h⟩
  | cons x xs ih =>
    obtain ⟨hgood, hbooks⟩ := h.applyEntry hgood (draws.headD [])
    rw [RaftClerk.applyLoop]
    by_cases halive : (c.applyEntry x (draws.headD [])).alive = true
    · rw [if_pos halive]
      exact ih draws.tail (hbooks halive) hgood
    · rw [if_neg halive]
      exact ⟨hgood, fun hdead => absurd hdead halive⟩

end Books

end RaftClerk

end WWRaftKV
