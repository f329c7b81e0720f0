/-
An install of a snapshot that fails.

Three steps belong to it: the core accepts the request, the clerk tries to install the data,
and the core takes the report of the failure.  The core changes none of its marks in them.  The
clerk clears its store only when the data has been parsed, but it has written the data into
the snapshot file before it looks at it.
-/
import WWRaftKV.Core.Change
import WWRaftKV.Node.SnapshotData

namespace WWRaftKV

open RaftM

/-- What the core asks of the clerk when it accepts the request. -/
def RaftInstallSnapshotRequestMessage.asks (m : RaftInstallSnapshotRequestMessage) :
    ApplySnapshotRequestMessage where
  seq := m.seq
  lastIncludedIndex := m.lastIncludedIndex
  lastIncludedTerm := m.lastIncludedTerm
  snapshot := m.snapshot

/-- What the clerk reports when the install has failed. -/
def RaftInstallSnapshotRequestMessage.failure (m : RaftInstallSnapshotRequestMessage) :
    ApplySnapshotResponseMessage where
  seq := m.seq
  lastIncludedIndex := -1
  lastIncludedTerm := 0

namespace Raft

variable {r : Raft} {m : RaftInstallSnapshotRequestMessage}

/-- The request passes the two tests of `_HandleInstallSnapshotRequest`. -/
def TakesSnapshot (r : Raft) (m : RaftInstallSnapshotRequestMessage) : Prop :=
  r.term ≤ m.term ∧ r.lastIncludedIndex ≤ m.lastIncludedIndex

instance : Decidable (r.TakesSnapshot m) :=
  inferInstanceAs (Decidable (r.term ≤ m.term ∧ r.lastIncludedIndex ≤ m.lastIncludedIndex))

/-- A request that is accepted goes to the clerk, and the log stays as it is. -/
theorem react_takesSnapshot (h : r.TakesSnapshot m) :
    (r.react (.message (.installSnapshotRequest m))).raft = r.observe m.fromId m.term ∧
      (r.react (.message (.installSnapshotRequest m))).pushed =
        [.applySnapshotRequest m.asks] := by
  have hpoint : (r.observe m.fromId m.term).lastIncludedIndex = r.lastIncludedIndex :=
    lastIncludedIndex_of_marks (observe_marks _ _)
  have hrun : (handleInstallSnapshotRequest m).run { raft := r, effects := [] } =
      .ok () { raft := r.observe m.fromId m.term
               effects := r.observeEffects m.fromId m.term ++
                 [.push (.applySnapshotRequest m.asks)] } := by
    unfold handleInstallSnapshotRequest
    rw [bind_run, fields_run]
    simp only
    rw [ite_run, if_neg (Nat.not_lt.mpr h.1), bind_run, observeTerm_run]
    simp only
    rw [bind_run, fields_run]
    simp only
    rw [ite_run, if_neg (by rw [hpoint]; exact Int.not_lt.mpr h.2)]
    rfl
  have hquiet : pushedOf (r.observeEffects m.fromId m.term) = [] := by
    unfold observeEffects
    split <;> rfl
  have heq : r.react (.message (.installSnapshotRequest m)) =
      { raft := r.observe m.fromId m.term
        effects := r.observeEffects m.fromId m.term ++ [.push (.applySnapshotRequest m.asks)]
        thrown := false } := by
    rw [react_eq]
    show Reaction.mk (endScope ((handleInstallSnapshotRequest m).run _)).raft _ _ = _
    rw [show (command (.message (.installSnapshotRequest m))) = handleInstallSnapshotRequest m
      from rfl, hrun]
    rfl
  rw [heq]
  refine ⟨rfl, ?_⟩
  show pushedOf _ = _
  rw [pushedOf_emit, hquiet]
  rfl

end Raft

namespace RaftClerk

/-- What an install that fails may not change. -/
structure Untouched (c c' : RaftClerk) : Prop where
  kvStore : c'.kvStore = c.kvStore
  snapshotFile : c'.snapshotFile = c.snapshotFile
  marks : c'.process.raft.marks = c.process.raft.marks

/-- The three steps of an install of `m` that fails, from `c₀` to `c₁`, from `d₀` to `d₁` and
from `e₀` to `e₁`.  Between them the node may do anything. -/
structure FailedInstall (codec : SnapshotCodec) (m : RaftInstallSnapshotRequestMessage)
    (opens : Bool) (draws : List (List Bool)) (c₀ c₁ d₀ d₁ e₀ e₁ : RaftClerk) : Prop where
  request : c₀.process.outter.head?.map (·.msg) = some (.installSnapshotRequest m)
  accepted : c₀.process.raft.TakesSnapshot m
  accept : c₀.step codec .handle = some c₁
  asked : d₀.process.inner.head?.map (·.msg) = some (.applySnapshotRequest m.asks)
  install : d₀.step codec (.clerk opens draws) = some d₁
  failed : (d₀.applySnapshot codec opens draws m.asks).1 = false
  alive : d₁.alive = true
  reported : e₀.process.outter.head?.map (·.msg) = some (.applySnapshotResponse m.failure)
  report : e₀.step codec .handle = some e₁

section Steps

variable {codec : SnapshotCodec} {m : RaftInstallSnapshotRequestMessage} {opens : Bool}
  {draws : List (List Bool)} {c c' c₀ c₁ d₀ d₁ e₀ e₁ : RaftClerk} {q : RaftMessage}

theorem head_of_map {xs : List Item} (h : xs.head?.map (·.msg) = some q) :
    ∃ cause rest, xs = { msg := q, cause := cause } :: rest := by
  cases xs with
  | nil => cases h
  | cons x xs =>
    obtain rfl := Option.some.inj h
    exact ⟨x.cause, xs, rfl⟩

/-- The core takes a message that is no operation of a client. -/
theorem step_handle {cause : Option Nat} {rest : List Item}
    (hs : c.step codec .handle = some c')
    (ho : c.process.outter = { msg := q, cause := cause } :: rest)
    (hq : ∀ k, q ≠ .kvOperationRequest k) :
    c' = { c with process := ({ c.process with outter := rest }).react (.message q) cause } := by
  obtain ⟨_, _, p', hp, rfl⟩ := step_some hs
  have hwork : (c.work codec .handle).2 = c := by
    show c.observe .handle = c
    unfold observe
    rw [ho]
    cases q with
    | kvOperationRequest k => exact absurd rfl (hq k)
    | _ => rfl
  have hpro : p' = ({ c.process with outter := rest }).react (.message q) cause := by
    have hp' : c.process.stepAlive .handle = some p' := hp
    rw [Process.stepAlive, ho] at hp'
    exact (Option.some.inj hp').symm
  rw [hwork, hpro]

/-- The clerk takes the snapshot, and hands its report to the core. -/
theorem step_install {cause : Option Nat} {rest : List Item}
    (hs : c.step codec (.clerk opens draws) = some c')
    (hi : c.process.inner = { msg := .applySnapshotRequest m.asks, cause := cause } :: rest)
    (hf : (c.applySnapshot codec opens draws m.asks).1 = false) :
    c' = { (c.applySnapshot codec opens draws m.asks).2 with
      process := { c.process with
        inner := rest
        outter := c.process.outter ++
          [{ msg := .applySnapshotResponse m.failure, cause := cause }] } } := by
  obtain ⟨_, _, p', hp, rfl⟩ := step_some hs
  have hwork : c.work codec (.clerk opens draws) = c.applySnapshot codec opens draws m.asks := by
    unfold work
    rw [hi]
    rfl
  have hp' : c.process.stepAlive (.clerk false) = some p' := by
    rw [hwork, hf] at hp
    exact hp
  rw [Process.stepAlive, hi] at hp'
  rw [hwork, ← Option.some.inj hp']
  rfl

theorem FailedInstall.untouched_accept (h : FailedInstall codec m opens draws c₀ c₁ d₀ d₁ e₀ e₁) :
    Untouched c₀ c₁ := by
  obtain ⟨cause, rest, ho⟩ := head_of_map h.request
  rw [step_handle h.accept ho fun _ => nofun]
  refine ⟨rfl, rfl, ?_⟩
  show (c₀.process.raft.react _).raft.marks = _
  rw [(Raft.react_takesSnapshot h.accepted).1]
  exact Raft.observe_marks _ _

theorem FailedInstall.untouched_report (h : FailedInstall codec m opens draws c₀ c₁ d₀ d₁ e₀ e₁) :
    Untouched e₀ e₁ := by
  obtain ⟨cause, rest, ho⟩ := head_of_map h.reported
  rw [step_handle h.report ho fun _ => nofun]
  exact ⟨rfl, rfl, rfl⟩

/-- A clerk that fails and lives has cleared nothing, and its file holds the data when it
could be opened. -/
theorem applySnapshot_failed {q : ApplySnapshotRequestMessage}
    (hf : (c.applySnapshot codec opens draws q).1 = false)
    (halive : (c.applySnapshot codec opens draws q).2.alive = true) :
    (c.applySnapshot codec opens draws q).2 =
      if opens then { c with snapshotFile := some q.snapshot } else c := by
  unfold applySnapshot at *
  cases opens with
  | false => rfl
  | true =>
    simp only [if_true] at *
    cases hparse : codec.parse q.snapshot with
    | none => rfl
    | some ps =>
      simp only [hparse] at hf halive
      cases hrun : c.kvStore.clear.bind (installEntries ps draws) with
      | some s =>
        simp only [hrun] at hf
        cases hf
      | none =>
        simp only [hrun] at halive
        cases halive

/-- An install that fails changes nothing if and only if the file could not be opened or held
the very bytes already. -/
theorem untouched_iff (codec : SnapshotCodec) (m : RaftInstallSnapshotRequestMessage)
    (opens : Bool) (draws : List (List Bool)) (c₀ c₁ d₀ d₁ e₀ e₁ : RaftClerk)
    (h : FailedInstall codec m opens draws c₀ c₁ d₀ d₁ e₀ e₁) :
    (Untouched c₀ c₁ ∧ Untouched d₀ d₁ ∧ Untouched e₀ e₁) ↔
      opens = false ∨ d₀.snapshotFile = some m.snapshot := by
  obtain ⟨cause, rest, hi⟩ := head_of_map h.asked
  have hstep := step_install h.install hi h.failed
  have halive : (d₀.applySnapshot codec opens draws m.asks).2.alive = true := by
    have hd := h.alive
    rw [hstep] at hd
    exact hd
  rw [applySnapshot_failed h.failed halive] at hstep
  constructor
  · intro hu
    cases opens with
    | false => exact .inl rfl
    | true =>
      have hfile := hu.2.1.snapshotFile
      rw [hstep] at hfile
      exact .inr hfile.symm
  · intro hcond
    refine ⟨h.untouched_accept, ?_, h.untouched_report⟩
    rw [hstep]
    cases opens with
    | false => exact ⟨rfl, rfl, rfl⟩
    | true =>
      rcases hcond with hclosed | hsame
      · cases hclosed
      · exact ⟨rfl, hsame.symm, rfl⟩

end Steps

/-! ## Data that does not parse -/

/-- A request with a snapshot that announces five bytes and has none. -/
def tornSnapshot : RaftInstallSnapshotRequestMessage where
  seq := 1
  term := 1
  fromId := 0
  lastIncludedIndex := 3
  lastIncludedTerm := 1
  snapshot := [Char.ofNat 10, Char.ofNat 5]

/-- Node 1 with a snapshot file of its own, when the request has arrived. -/
def receiver (file : Str) : RaftClerk :=
  let c := (init SnapshotData.codec [] 1 [0, 1, 2] [] none (some file)).get rfl
  { c with process := c.process.register 0 (.installSnapshotRequest tornSnapshot) }

def stepped (c : RaftClerk) (e : ClerkEvent) : RaftClerk := (c.step SnapshotData.codec e).getD c

/-- The states of the node when nothing comes between. -/
def tornStates (file : Str) (opens : Bool) : RaftClerk × RaftClerk × RaftClerk :=
  let accepted := (receiver file).stepped .handle
  let installed := accepted.stepped (.clerk opens [])
  (accepted, installed, installed.stepped .handle)

theorem failedInstall_torn (file : Str) (opens : Bool) :
    FailedInstall SnapshotData.codec tornSnapshot opens [] (receiver file)
      (tornStates file opens).1 (tornStates file opens).1 (tornStates file opens).2.1
        (tornStates file opens).2.1 (tornStates file opens).2.2 := by
  cases opens with
  | false => exact ⟨rfl, ⟨Nat.zero_le 1, Int.zero_le_ofNat 3⟩, rfl, rfl, rfl, rfl, rfl, rfl, rfl⟩
  | true => exact ⟨rfl, ⟨Nat.zero_le 1, Int.zero_le_ofNat 3⟩, rfl, rfl, rfl, rfl, rfl, rfl, rfl⟩

/-- The file cannot be opened, or it holds the torn bytes already. -/
theorem untouched_torn :
    (Untouched (receiver []) (tornStates [] false).1 ∧
      Untouched (tornStates [] false).1 (tornStates [] false).2.1 ∧
      Untouched (tornStates [] false).2.1 (tornStates [] false).2.2) ∧
    Untouched (receiver tornSnapshot.snapshot) (tornStates tornSnapshot.snapshot true).1 ∧
      Untouched (tornStates tornSnapshot.snapshot true).1
        (tornStates tornSnapshot.snapshot true).2.1 ∧
      Untouched (tornStates tornSnapshot.snapshot true).2.1
        (tornStates tornSnapshot.snapshot true).2.2 :=
  ⟨(untouched_iff SnapshotData.codec tornSnapshot false [] _ _ _ _ _ _
      (failedInstall_torn [] false)).mpr (.inl rfl),
    (untouched_iff SnapshotData.codec tornSnapshot true [] _ _ _ _ _ _
      (failedInstall_torn tornSnapshot.snapshot true)).mpr (.inr rfl)⟩

/-- The file of the node holds the torn bytes after the failure. -/
theorem torn_overwrites :
    ¬ ∀ codec m opens draws c₀ c₁ d₀ d₁ e₀ e₁,
      FailedInstall codec m opens draws c₀ c₁ d₀ d₁ e₀ e₁ →
        Untouched c₀ c₁ ∧ Untouched d₀ d₁ ∧ Untouched e₀ e₁ := by
  intro h
  have hfile := (h _ _ _ _ _ _ _ _ _ _ (failedInstall_torn [] true)).2.1.snapshotFile
  have hnew : (tornStates [] true).2.1.snapshotFile = some tornSnapshot.snapshot := rfl
  have hold : (tornStates [] true).1.snapshotFile = some [] := rfl
  rw [hnew, hold] at hfile
  exact absurd (Option.some.inj hfile) (by decide)

end RaftClerk

end WWRaftKV
