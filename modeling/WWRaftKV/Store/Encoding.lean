/-
The text of a write, from the leader that builds it to the clerk that reads it.

The leader joins the operation, the key and the value with blanks, and the clerk splits the
text at white space.  Nothing between them looks at the strings of the client.  A write comes
back as it was asked for exactly when its strings are words.
-/
import Mathlib.Data.List.TakeWhile
import WWRaftKV.Core.Emit
import WWRaftKV.Store.Replica

namespace WWRaftKV

open Raft (commandText)

/-! ## Words of a text -/

/-- The string comes back when it is read as one word. -/
structure IsWord (x : Str) : Prop where
  ne_nil : x ≠ []
  noSpace : ∀ c ∈ x, isSpace c = false

section Extract

variable {x rest text : Str}

theorem extract_blank (text : Str) : extract (' ' :: text) = extract text := rfl

theorem dropWhile_space (rest : Str) (hne : x ≠ []) (h : ∀ c ∈ x, isSpace c = false) :
    (x ++ rest).dropWhile isSpace = x ++ rest := by
  cases x with
  | nil => exact absurd rfl hne
  | cons c x =>
    rw [List.cons_append, List.dropWhile_cons]
    simp [h c List.mem_cons_self]

theorem extract_word (h : IsWord x) (text : Str) :
    extract (x ++ ' ' :: text) = (x, ' ' :: text) := by
  have hnot : ∀ c ∈ x, (!isSpace c) = true := by
    intro c hc
    rw [h.noSpace c hc]
    rfl
  unfold extract
  rw [dropWhile_space _ h.ne_nil h.noSpace]
  dsimp only
  rw [List.takeWhile_append_of_pos hnot, List.dropWhile_append_of_pos hnot]
  simp [isSpace]

theorem extract_last (h : IsWord x) : extract x = (x, []) := by
  have hnot : ∀ c ∈ x, (!isSpace c) = true := by
    intro c hc
    rw [h.noSpace c hc]
    rfl
  have hdrop := dropWhile_space [] h.ne_nil h.noSpace
  rw [List.append_nil] at hdrop
  unfold extract
  rw [hdrop]
  dsimp only
  rw [List.takeWhile_eq_self_iff.mpr hnot, List.dropWhile_eq_nil_iff.mpr hnot]

/-- What is read as a word has no white space in it. -/
theorem noSpace_extract (text : Str) : ∀ c ∈ (extract text).1, isSpace c = false := by
  intro c hc
  have h := List.mem_takeWhile_imp hc
  simpa using h

theorem extract_nil : extract [] = ([], []) := rfl

end Extract

/-! ## The write that was asked for -/

def OperationType.word : OperationType → Str
  | .put => ['p', 'u', 't']
  | .update => ['u', 'p', 'd', 'a', 't', 'e']
  | .delete => ['d', 'e', 'l', 'e', 't', 'e']
  | .get => []

/-- The words that the clerk should read.  A deletion carries no value. -/
def KVOperationRequestMessage.words (m : KVOperationRequestMessage) : Words where
  op := m.opType.word
  key := m.key
  value := if m.opType = .delete then [] else m.value

/-- The write on the store, with the strings of the client as they are. -/
def KVOperationRequestMessage.write (m : KVOperationRequestMessage) (s : StrStore)
    (draws : List Bool) : Option (StatusCode × StrStore) :=
  match m.opType with
  | .put => do
    let (ok, s) ← KVStore.put s m.key m.value draws
    some (if ok then .created else .internalError, s)
  | .update => do
    let (ok, s) ← KVStore.update s m.key m.value draws
    some (if ok then .created else .internalError, s)
  | .delete => do
    let (ok, s) ← KVStore.remove s m.key
    some (if ok then .created else .internalError, s)
  | .get => some (.default, s)

/-- The entry that a leader appends for the request reads as the request, and every clerk
that applies it does what the request asks for. -/
structure RoundTrips (m : KVOperationRequestMessage) : Prop where
  parsed : ∀ (r : Raft) (e : RaftLogEntry), r.writeOf m = some e →
    Words.read e.command = m.words
  executed : ∀ (r : Raft) (e : RaftLogEntry), r.writeOf m = some e → ∀ s draws,
    RaftClerk.applyCommand s e.command draws = m.write s draws

/-- The strings that a write puts into its text are words. -/
def InWords (m : KVOperationRequestMessage) : Prop :=
  match m.opType with
  | .put => IsWord m.key ∧ IsWord m.value
  | .update => IsWord m.key ∧ IsWord m.value
  | .delete => IsWord m.key
  | .get => True

section RoundTrip

variable {m : KVOperationRequestMessage} {text : Str}

theorem commandText_of_writeOf {r : Raft} {e : RaftLogEntry} (h : r.writeOf m = some e) :
    commandText m.opType m.key m.value = some e.command := by
  unfold Raft.writeOf at h
  split at h
  · obtain ⟨text, ht, rfl⟩ := Option.map_eq_some_iff.mp h
    exact ht
  · cases h

/-- A leader that takes the write. -/
def aLeader : Raft := { Raft.make 0 [] with role := .leader }

theorem exists_writeOf (h : commandText m.opType m.key m.value = some text) :
    ∃ e, aLeader.writeOf m = some e ∧ e.command = text := by
  have hrole : aLeader.role = .leader := rfl
  unfold Raft.writeOf
  rw [if_pos hrole, h]
  exact ⟨_, rfl, rfl⟩

/-! ### Reading the text -/

theorem isWord_word {op : OperationType} (h : op ≠ .get) : IsWord op.word where
  ne_nil := by
    cases op with
    | get => exact absurd rfl h
    | _ => exact List.cons_ne_nil _ _
  noSpace := by
    have hall : op.word.all (fun c => !isSpace c) = true := by
      cases op <;> rfl
    intro c hc
    have hword := List.all_eq_true.mp hall c hc
    simpa using hword

theorem read_words {op key value : Str} (ho : IsWord op) (hk : IsWord key) (hv : IsWord value) :
    Words.read (op ++ ' ' :: (key ++ ' ' :: value)) = { op := op, key := key, value := value } := by
  unfold Words.read
  rw [extract_word ho]
  dsimp only
  rw [extract_blank, extract_word hk]
  dsimp only
  rw [extract_blank, extract_last hv]

theorem read_pair {op key : Str} (ho : IsWord op) (hk : IsWord key) :
    Words.read (op ++ ' ' :: key) = { op := op, key := key, value := [] } := by
  unfold Words.read
  rw [extract_word ho]
  dsimp only
  rw [extract_blank, extract_last hk]
  dsimp only
  rw [extract_nil]

theorem read_commandText (h : InWords m)
    (ht : commandText m.opType m.key m.value = some text) : Words.read text = m.words := by
  unfold KVOperationRequestMessage.words
  unfold InWords at h
  cases hop : m.opType with
  | get =>
    rw [hop] at ht
    cases ht
  | put =>
    rw [hop] at ht h
    obtain rfl := Option.some.inj ht
    have hword := isWord_word (by decide : OperationType.put ≠ .get)
    simpa [OperationType.word] using read_words hword h.1 h.2
  | update =>
    rw [hop] at ht h
    obtain rfl := Option.some.inj ht
    have hword := isWord_word (by decide : OperationType.update ≠ .get)
    simpa [OperationType.word] using read_words hword h.1 h.2
  | delete =>
    rw [hop] at ht h
    obtain rfl := Option.some.inj ht
    have hword := isWord_word (by decide : OperationType.delete ≠ .get)
    simpa [OperationType.word] using read_pair hword h

/-! ### Applying the text -/

open RaftClerk

theorem inWords_of_get (m : KVOperationRequestMessage) (h : m.opType = .get) :
    InWords m := by
  unfold InWords
  rw [h]
  trivial

theorem applyCommand_of_words (h : InWords m) (hop : m.opType ≠ .get)
    (hw : Words.read text = m.words) (s : StrStore) (draws : List Bool) :
    applyCommand s text draws = m.write s draws := by
  unfold applyCommand KVOperationRequestMessage.write
  unfold InWords at h
  rw [hw]
  unfold KVOperationRequestMessage.words
  cases ho : m.opType with
  | get => exact absurd ho hop
  | put =>
    rw [ho] at h
    simp [OperationType.word, h.1.ne_nil, h.2.ne_nil]
  | update =>
    rw [ho] at h
    simp [OperationType.word, h.1.ne_nil, h.2.ne_nil]
  | delete =>
    rw [ho] at h
    simp [OperationType.word, h.ne_nil]

/-- A write that is done has another status than the one that a refused text keeps. -/
theorem write_ne_default (hop : m.opType ≠ .get) (s : StrStore) (draws : List Bool) :
    m.write s draws ≠ some (.default, s) := by
  have hcode : ∀ (x : Option (Bool × StrStore)),
      (x.bind fun y => some (if y.1 then StatusCode.created else .internalError, y.2)) ≠
        some (.default, s) := by
    intro x h
    obtain ⟨y, _, hy⟩ := Option.bind_eq_some_iff.mp h
    have hfst := congrArg Prod.fst (Option.some.inj hy)
    cases hb : y.1 <;> simp [hb] at hfst
  unfold KVOperationRequestMessage.write
  cases ho : m.opType with
  | get => exact absurd ho hop
  | put => exact hcode _
  | update => exact hcode _
  | delete => exact hcode _

/-- The clerk refuses a text with a missing word. -/
theorem applyCommand_refuses (hop : m.opType ≠ .get) (hw : Words.read text = m.words)
    (hmissing : m.key = [] ∨ m.opType ≠ .delete ∧ m.value = []) (s : StrStore)
    (draws : List Bool) : applyCommand s text draws = some (.default, s) := by
  unfold applyCommand
  rw [hw]
  unfold KVOperationRequestMessage.words
  cases ho : m.opType with
  | get => exact absurd ho hop
  | put =>
    rw [ho] at hmissing
    rcases hmissing with hk | ⟨_, hv⟩
    · simp [OperationType.word, hk]
    · simp [OperationType.word, hv]
  | update =>
    rw [ho] at hmissing
    rcases hmissing with hk | ⟨_, hv⟩
    · simp [OperationType.word, hk]
    · simp [OperationType.word, hv]
  | delete =>
    rw [ho] at hmissing
    rcases hmissing with hk | ⟨hd, _⟩
    · simp [OperationType.word, hk]
    · exact absurd rfl hd

theorem noSpace_of_read (hw : Words.read text = m.words) :
    (∀ c ∈ m.key, isSpace c = false) ∧
      (m.opType ≠ .delete → ∀ c ∈ m.value, isSpace c = false) := by
  have hkey : (Words.read text).key = m.key := congrArg Words.key hw
  have hvalue : (Words.read text).value = m.words.value := congrArg Words.value hw
  constructor
  · rw [← hkey]
    exact noSpace_extract _
  · intro hd
    have hv : m.words.value = m.value := if_neg hd
    rw [← hv, ← hvalue]
    exact noSpace_extract _

theorem RoundTrips.inWords (h : RoundTrips m) : InWords m := by
  by_cases hop : m.opType = .get
  · exact inWords_of_get m hop
  obtain ⟨text, ht⟩ : ∃ text, commandText m.opType m.key m.value = some text := by
    cases ho : m.opType with
    | get => exact absurd ho hop
    | put => exact ⟨_, rfl⟩
    | update => exact ⟨_, rfl⟩
    | delete => exact ⟨_, rfl⟩
  obtain ⟨e, he, rfl⟩ := exists_writeOf ht
  have hread := h.parsed aLeader e he
  obtain ⟨hkey, hvalue⟩ := noSpace_of_read hread
  have hwhole : ¬ (m.key = [] ∨ m.opType ≠ .delete ∧ m.value = []) := by
    intro hmissing
    have hrefused := applyCommand_refuses hop hread hmissing newStore []
    rw [h.executed aLeader e he] at hrefused
    exact write_ne_default hop newStore [] hrefused
  have hk : IsWord m.key := ⟨fun hk => hwhole (.inl hk), hkey⟩
  have hv (hd : m.opType ≠ .delete) : IsWord m.value :=
    ⟨fun hv => hwhole (.inr ⟨hd, hv⟩), hvalue hd⟩
  unfold InWords
  cases ho : m.opType with
  | get => trivial
  | put => exact ⟨hk, hv (by rw [ho]; decide)⟩
  | update => exact ⟨hk, hv (by rw [ho]; decide)⟩
  | delete => exact hk

/-- A write comes back as it was asked for exactly when its strings are words. -/
theorem roundTrips_iff (m : KVOperationRequestMessage) : RoundTrips m ↔ InWords m := by
  constructor
  · exact RoundTrips.inWords
  · intro h
    have hop {r : Raft} {e : RaftLogEntry} (he : r.writeOf m = some e) : m.opType ≠ .get := by
      intro ho
      have ht := commandText_of_writeOf he
      rw [ho] at ht
      cases ht
    constructor
    · intro r e he
      exact read_commandText h (commandText_of_writeOf he)
    · intro r e he s draws
      exact applyCommand_of_words h (hop he) (read_commandText h (commandText_of_writeOf he)) s
        draws

/-- A put of the key `a b`. -/
def putBlank : KVOperationRequestMessage :=
  { seq := 1, uuid := ['u'], opType := .put, key := ['a', ' ', 'b'], value := ['c'] }

/-- The clerk reads the key `a` and the value `b`, and writes them. -/
theorem key_with_blank_misread :
    ¬ RoundTrips putBlank ∧
      (aLeader.writeOf putBlank).bind (fun e =>
        (applyCommand newStore e.command []).bind fun x =>
          (KVStore.pairs x.2).map fun pairs => (x.1, pairs)) =
        some (.created, [(['a'], ['b'])]) := by
  constructor
  · intro h
    have hread := h.parsed aLeader _ rfl
    exact absurd hread (by decide)
  · decide

end RoundTrip

end WWRaftKV
