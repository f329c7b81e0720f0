/-
What a clerk does to its store.

The clerk applies the commands of the log and serves reads between them.  A read goes
through `operator[]`, which puts an absent key into the store.  So two nodes agree, and
reads leave their stores alone, exactly when every read is for a key that is there.
-/
import Mathlib.Data.Char
import Mathlib.Data.List.Lex
import WWRaftKV.Core.Message
import WWRaftKV.Store.KVStore

namespace WWRaftKV

/-- The codes of `KVOperationResponse`. -/
inductive StatusCode
  | default
  | success
  | created
  | redirect
  | badRequest
  | notFound
  | internalError
deriving DecidableEq, Repr

abbrev StrStore := Skiplist Str Str

abbrev StrMap := Finmap fun _ : Str => Str

/-! ## Commands -/

/-- `std::isspace` in the default locale. -/
def isSpace (c : Char) : Bool := c.toNat = 32 || (9 ≤ c.toNat && c.toNat ≤ 13)

/-- `iss >> word` for a new string: the word, which is empty when nothing is left, and
what is left. -/
def extract (text : Str) : Str × Str :=
  let text := text.dropWhile isSpace
  (text.takeWhile (!isSpace ·), text.dropWhile (!isSpace ·))

/-- The three words of a command. -/
structure Words where
  op : Str
  key : Str
  value : Str
deriving DecidableEq, Repr

def Words.read (command : Str) : Words :=
  let (op, rest) := extract command
  let (key, rest) := extract rest
  let (value, _) := extract rest
  { op := op, key := key, value := value }

namespace RaftClerk

/-- The branches of `_ApplyCommitLogs` for one entry. -/
def applyCommand (s : StrStore) (command : Str) (draws : List Bool) :
    Option (StatusCode × StrStore) :=
  let w := Words.read command
  if w.op = ['p', 'u', 't'] then
    if w.key ≠ [] ∧ w.value ≠ [] then do
      let (ok, s) ← KVStore.put s w.key w.value draws
      some (if ok then .created else .internalError, s)
    else some (.default, s)
  else if w.op = ['u', 'p', 'd', 'a', 't', 'e'] then
    if w.key ≠ [] ∧ w.value ≠ [] then do
      let (ok, s) ← KVStore.update s w.key w.value draws
      some (if ok then .created else .internalError, s)
    else some (.default, s)
  else if w.op = ['d', 'e', 'l', 'e', 't', 'e'] then
    if w.key ≠ [] then do
      let (ok, s) ← KVStore.remove s w.key
      some (if ok then .created else .internalError, s)
    else some (.default, s)
  else some (.default, s)

/-- The loop of `_ApplyCommitLogs`.  Every entry comes with the level draws that its
command would use. -/
def applyCommitLogs (s : StrStore) :
    List (RaftLogEntry × List Bool) → Option (List StatusCode × StrStore)
  | [] => some ([], s)
  | (entry, draws) :: entries => do
    let (code, s) ← applyCommand s entry.command draws
    let (codes, s) ← applyCommitLogs s entries
    some (code :: codes, s)

/-- The branch of `_SendKVOperationResponse` for a read: the code and the payload. -/
def sendGet (s : StrStore) (key : Str) (draws : List Bool) :
    Option ((StatusCode × Str) × StrStore) := do
  let (value, s) ← KVStore.get s key draws
  some (if value = [] then (.notFound, []) else (.success, value), s)

/-- A message of the core that makes the clerk use its store. -/
inductive Action
  /-- an `ApplyCommitLogs` request -/
  | apply (entries : List (RaftLogEntry × List Bool))
  /-- the agreement to a read -/
  | get (key : Str) (draws : List Bool)

inductive Outcome
  | applied (codes : List StatusCode)
  | got (response : StatusCode × Str)
deriving DecidableEq, Repr

def Outcome.codes : Outcome → List StatusCode
  | .applied codes => codes
  | .got _ => []

/-- The commands among the actions, in order. -/
def commands (as : List Action) : List Str :=
  as.flatMap fun a => match a with
    | .apply entries => entries.map (·.1.command)
    | .get _ _ => []

def act (s : StrStore) : Action → Option (Outcome × StrStore)
  | .apply entries => do
    let (codes, s) ← applyCommitLogs s entries
    some (.applied codes, s)
  | .get key draws => do
    let (response, s) ← sendGet s key draws
    some (.got response, s)

def run (s : StrStore) : List Action → Option (List Outcome × StrStore)
  | [] => some ([], s)
  | a :: as => do
    let (x, s) ← act s a
    let (xs, s) ← run s as
    some (x :: xs, s)

/-! ## Two nodes -/

/-- A store that operations have made out of an empty one. -/
def IsStore (s : StrStore) : Prop :=
  ∃ n ops rs, (Skiplist.make (n + 1) : StrStore).run ops = some (rs, s)

/-- A condition on every action of a run, in the state before it. -/
def Along (P : StrStore → Action → Prop) : StrStore → List Action → Prop
  | _, [] => True
  | s, a :: as => P s a ∧ ∀ x t, act s a = some (x, t) → Along P t as

/-- A read leaves the pairs of the store as they are. -/
def ReadKeeps (s : StrStore) : Action → Prop
  | .apply _ => True
  | .get key draws => ∀ x t, act s (.get key draws) = some (x, t) →
    KVStore.pairs t = KVStore.pairs s

/-- A read is for a key that is in the store. -/
def ReadPresent (s : StrStore) : Action → Prop
  | .apply _ => True
  | .get key _ => s.contains key = some true

/-- The two runs end with the same pairs, and give each command the same status. -/
def Agree (s t : StrStore) (as bs : List Action) : Prop :=
  ∃ xs s' ys t', run s as = some (xs, s') ∧ run t bs = some (ys, t') ∧
    KVStore.pairs s' = KVStore.pairs t' ∧
      xs.flatMap Outcome.codes = ys.flatMap Outcome.codes

/-- The two nodes are deterministic replicas of each other. -/
structure Deterministic (s t : StrStore) (as bs : List Action) : Prop where
  agree : Agree s t as bs
  left : Along ReadKeeps s as
  right : Along ReadKeeps t bs

/-! ## Commands on a finite map -/

def specCommand (m : StrMap) (command : Str) : StatusCode × StrMap :=
  let w := Words.read command
  if w.op = ['p', 'u', 't'] then
    if w.key ≠ [] ∧ w.value ≠ [] then
      if (SortedMap.lookup w.key m).isSome then (.internalError, m)
      else (.created, SortedMap.insert w.key w.value m)
    else (.default, m)
  else if w.op = ['u', 'p', 'd', 'a', 't', 'e'] then
    if w.key ≠ [] ∧ w.value ≠ [] then (.created, SortedMap.insert w.key w.value m)
    else (.default, m)
  else if w.op = ['d', 'e', 'l', 'e', 't', 'e'] then
    if w.key ≠ [] then
      (if (SortedMap.lookup w.key m).isSome then .created else .internalError,
        SortedMap.erase w.key m)
    else (.default, m)
  else (.default, m)

def specCommands (m : StrMap) : List Str → List StatusCode × StrMap
  | [] => ([], m)
  | command :: rest =>
    ((specCommand m command).1 :: (specCommands (specCommand m command).2 rest).1,
      (specCommands (specCommand m command).2 rest).2)

section Spec

variable {s : StrStore} {m : StrMap}

theorem specCommands_append (m : StrMap) (cs ds : List Str) :
    specCommands m (cs ++ ds) =
      ((specCommands m cs).1 ++ (specCommands (specCommands m cs).2 ds).1,
        (specCommands (specCommands m cs).2 ds).2) := by
  induction cs generalizing m with
  | nil => simp [specCommands]
  | cons c cs ih => simp [specCommands, ih]

theorem applyCommand_spec (h : s.Represents m) (command : Str) (draws : List Bool) :
    ∃ t, applyCommand s command draws = some ((specCommand m command).1, t) ∧
      t.Represents (specCommand m command).2 := by
  simp only [applyCommand, specCommand]
  generalize Words.read command = w
  by_cases hput : w.op = ['p', 'u', 't']
  · rw [if_pos hput, if_pos hput]
    by_cases hw : w.key ≠ [] ∧ w.value ≠ []
    · rw [if_pos hw, if_pos hw]
      cases hm : SortedMap.lookup w.key m with
      | some v => exact ⟨s, by simp [KVStore.put_present w.key w.value draws h hm], h⟩
      | none =>
        obtain ⟨t, hrun, ht⟩ := KVStore.put_absent w.key w.value draws h hm
        exact ⟨t, by simp [hrun], ht⟩
    · rw [if_neg hw, if_neg hw]
      exact ⟨s, rfl, h⟩
  rw [if_neg hput, if_neg hput]
  by_cases hupd : w.op = ['u', 'p', 'd', 'a', 't', 'e']
  · rw [if_pos hupd, if_pos hupd]
    by_cases hw : w.key ≠ [] ∧ w.value ≠ []
    · rw [if_pos hw, if_pos hw]
      obtain ⟨t, hrun, ht⟩ := KVStore.update_spec w.key w.value draws h
      exact ⟨t, by simp [hrun], ht⟩
    · rw [if_neg hw, if_neg hw]
      exact ⟨s, rfl, h⟩
  rw [if_neg hupd, if_neg hupd]
  by_cases hdel : w.op = ['d', 'e', 'l', 'e', 't', 'e']
  · rw [if_pos hdel, if_pos hdel]
    by_cases hw : w.key ≠ []
    · rw [if_pos hw, if_pos hw]
      obtain ⟨t, hrun, ht⟩ := KVStore.remove_spec w.key h
      exact ⟨t, by simp [hrun], ht⟩
    · rw [if_neg hw, if_neg hw]
      exact ⟨s, rfl, h⟩
  · rw [if_neg hdel, if_neg hdel]
    exact ⟨s, rfl, h⟩

theorem applyCommitLogs_spec (h : s.Represents m) (entries : List (RaftLogEntry × List Bool)) :
    ∃ t, applyCommitLogs s entries =
        some ((specCommands m (entries.map (·.1.command))).1, t) ∧
      t.Represents (specCommands m (entries.map (·.1.command))).2 := by
  induction entries generalizing s m with
  | nil => exact ⟨s, rfl, h⟩
  | cons entry entries ih =>
    obtain ⟨t, hrun, ht⟩ := applyCommand_spec h entry.1.command entry.2
    obtain ⟨t', hrest, ht'⟩ := ih ht
    exact ⟨t', by simp [applyCommitLogs, specCommands, hrun, hrest], ht'⟩

end Spec

/-! ## Reads -/

section Reads

variable {s t : StrStore} {m : StrMap} {a : Action} {as : List Action} {x : Outcome}

/-- A read changes the store exactly when its key is absent. -/
theorem readKeeps_iff (h : s.Represents m) : ReadKeeps s a ↔ ReadPresent s a := by
  cases a with
  | apply entries => exact Iff.rfl
  | get key draws =>
    show (∀ x t, act s (.get key draws) = some (x, t) → _) ↔ s.contains key = some true
    have hpresent : s.contains key = some (SortedMap.lookup key m).isSome :=
      KVStore.contains_spec key h
    cases hm : SortedMap.lookup key m with
    | some v =>
      have hget : KVStore.get s key draws = some (v, s) := KVStore.get_present key draws h hm
      constructor
      · intro _
        rw [hpresent, hm]
        rfl
      · intro _ x t hact
        simp only [act, sendGet, hget, Option.bind_eq_bind, Option.bind_some,
          Option.some.injEq, Prod.mk.injEq] at hact
        rw [← hact.2]
    | none =>
      obtain ⟨t, hget, ht⟩ := KVStore.get_absent key draws h hm
      have hact : act s (.get key draws) = some (.got (.notFound, []), t) := by
        simp only [act, sendGet, hget, Option.bind_eq_bind, Option.bind_some]
        rfl
      constructor
      · intro hkeeps
        have hmap := (KVStore.pairs_eq_iff ht h).mp (hkeeps _ t hact)
        exact absurd hmap (SortedMap.insert_ne_self hm default)
      · intro hsome
        rw [hpresent, hm] at hsome
        cases hsome

/-- The store stays well formed. -/
theorem act_represents (h : s.Represents m) (ha : act s a = some (x, t)) :
    ∃ m', t.Represents m' := by
  cases a with
  | apply entries =>
    obtain ⟨t', hrun, ht⟩ := applyCommitLogs_spec h entries
    simp only [act, hrun, Option.bind_eq_bind, Option.bind_some, Option.some.injEq,
      Prod.mk.injEq] at ha
    rw [← ha.2]
    exact ⟨_, ht⟩
  | get key draws =>
    cases hm : SortedMap.lookup key m with
    | some v =>
      simp only [act, sendGet, KVStore.get_present key draws h hm, Option.bind_eq_bind,
        Option.bind_some, Option.some.injEq, Prod.mk.injEq] at ha
      rw [← ha.2]
      exact ⟨m, h⟩
    | none =>
      obtain ⟨t', hget, ht⟩ := KVStore.get_absent key draws h hm
      simp only [act, sendGet, hget, Option.bind_eq_bind, Option.bind_some, Option.some.injEq,
        Prod.mk.injEq] at ha
      rw [← ha.2]
      exact ⟨_, ht⟩

theorem along_readKeeps_iff (h : s.Represents m) :
    Along ReadKeeps s as ↔ Along ReadPresent s as := by
  induction as generalizing s m with
  | nil => exact Iff.rfl
  | cons a as ih =>
    apply and_congr (readKeeps_iff h)
    apply forall_congr'
    intro x
    apply forall_congr'
    intro t
    apply imp_congr_right
    intro ha
    obtain ⟨m', ht⟩ := act_represents h ha
    exact ih ht

/-- Without reads of absent keys a run does what its commands do. -/
theorem run_of_readPresent (h : s.Represents m) (hp : Along ReadPresent s as) :
    ∃ xs t, run s as = some (xs, t) ∧
      xs.flatMap Outcome.codes = (specCommands m (commands as)).1 ∧
        t.Represents (specCommands m (commands as)).2 := by
  induction as generalizing s m with
  | nil => exact ⟨[], s, rfl, rfl, h⟩
  | cons a as ih =>
    cases a with
    | apply entries =>
      obtain ⟨t, hrun, ht⟩ := applyCommitLogs_spec h entries
      have hact : act s (.apply entries) =
          some (.applied (specCommands m (entries.map (·.1.command))).1, t) := by
        simp [act, hrun]
      obtain ⟨xs, t', hrest, hcodes, ht'⟩ := ih ht (hp.2 _ t hact)
      have hsplit : commands (.apply entries :: as) =
          entries.map (·.1.command) ++ commands as := rfl
      rw [hsplit, specCommands_append]
      have hruns : run s (.apply entries :: as) =
          some (.applied (specCommands m (entries.map (·.1.command))).1 :: xs, t') := by
        simp [run, hact, hrest]
      refine ⟨_, t', hruns, ?_, ht'⟩
      rw [List.flatMap_cons, hcodes]
      rfl
    | get key draws =>
      have hkey : s.contains key = some true := hp.1
      rw [KVStore.contains_spec key h] at hkey
      obtain ⟨v, hv⟩ := Option.isSome_iff_exists.mp (Option.some.inj hkey)
      have hact : act s (.get key draws) =
          some (.got (if v = [] then (.notFound, []) else (.success, v)), s) := by
        simp [act, sendGet, KVStore.get_present key draws h hv]
      obtain ⟨xs, t', hrest, hcodes, ht'⟩ := ih h (hp.2 _ s hact)
      have hruns : run s (.get key draws :: as) =
          some (.got (if v = [] then (.notFound, []) else (.success, v)) :: xs, t') := by
        simp only [run, hact, hrest, Option.bind_eq_bind, Option.bind_some]
      refine ⟨_, t', hruns, ?_, ht'⟩
      rw [List.flatMap_cons, hcodes]
      rfl

theorem IsStore.represents (h : IsStore s) : ∃ m, s.Represents m := by
  obtain ⟨n, ops, rs, hrun⟩ := h
  obtain ⟨t, hrun', ht⟩ := Skiplist.simulates_run
    (s := (Skiplist.make (n + 1) : StrStore)) ⟨[], Skiplist.make_rep n, rfl⟩ ops
  rw [hrun] at hrun'
  obtain rfl := congrArg Prod.snd (Option.some.inj hrun')
  exact ⟨_, ht⟩

/-- Two nodes that start with the same pairs and apply the same commands are replicas of
each other, with reads that leave the store alone, exactly when every read is for a key
that is in the store at that moment. -/
theorem deterministic_iff (s t : StrStore) (as bs : List Action) (hs : IsStore s)
    (ht : IsStore t) (hst : KVStore.pairs s = KVStore.pairs t)
    (hc : commands as = commands bs) :
    Deterministic s t as bs ↔ Along ReadPresent s as ∧ Along ReadPresent t bs := by
  obtain ⟨m, hm⟩ := hs.represents
  obtain ⟨m', hm'⟩ := ht.represents
  obtain rfl := (KVStore.pairs_eq_iff hm hm').mp hst
  constructor
  · intro h
    exact ⟨(along_readKeeps_iff hm).mp h.left, (along_readKeeps_iff hm').mp h.right⟩
  · rintro ⟨ha, hb⟩
    obtain ⟨xs, s', hrun, hcodes, hs'⟩ := run_of_readPresent hm ha
    obtain ⟨ys, t', hrun', hcodes', ht'⟩ := run_of_readPresent hm' hb
    refine ⟨⟨xs, s', ys, t', hrun, hrun', ?_, ?_⟩, (along_readKeeps_iff hm).mpr ha,
      (along_readKeeps_iff hm').mpr hb⟩
    · apply (KVStore.pairs_eq_iff hs' ht').mpr
      rw [hc]
    · rw [hcodes, hcodes', hc]

end Reads

/-! ## One key -/

/-- The store of a new clerk: a skip list of `MAX_LEVEL` levels. -/
def newStore : StrStore := Skiplist.make 16

def putA : Action :=
  .apply [({ term := 1, command := ['p', 'u', 't', ' ', 'a', ' ', '1'] }, [])]

def getA : Action := .get ['a'] []

theorem isStore_new : IsStore newStore := ⟨15, [], [], rfl⟩

theorem deterministic_one : Deterministic newStore newStore [putA, getA] [putA] := by
  apply (deterministic_iff newStore newStore [putA, getA] [putA] isStore_new isStore_new rfl
    rfl).mpr
  constructor
  · constructor
    · trivial
    intro x t hact
    have hcontains : (act newStore putA).bind (·.2.contains ['a']) = some true := by decide
    rw [hact] at hcontains
    constructor
    · exact hcontains
    · intros
      trivial
  · constructor
    · trivial
    · intros
      trivial

/-- A read before the put makes the put fail on one node alone. -/
theorem read_changes_replica :
    ¬ ∀ s t as bs, IsStore s → IsStore t → KVStore.pairs s = KVStore.pairs t →
      commands as = commands bs → Deterministic s t as bs := by
  intro h
  obtain ⟨⟨xs, s', ys, t', hrun, hrun', _, hcodes⟩, _, _⟩ :=
    h newStore newStore [getA, putA] [putA] isStore_new isStore_new rfl rfl
  have hleft : (run newStore [getA, putA]).map (·.1.flatMap Outcome.codes) =
      some [.internalError] := by decide
  have hright : (run newStore [putA]).map (·.1.flatMap Outcome.codes) = some [.created] := by decide
  rw [hrun] at hleft
  rw [hrun'] at hright
  have hl := Option.some.inj hleft
  have hr := Option.some.inj hright
  exact absurd (hl.symm.trans (hcodes.trans hr)) (by decide)

end RaftClerk

end WWRaftKV
