/-
The mark of a snapshot in progress.

The core raises `_Is_snapshoting` when it asks its clerk for a snapshot and lowers it when
the clerk has taken one.  The handler of a failed attempt returns before it lowers the mark.
So the mark says whether a request or an answer is outstanding up to the first failed
attempt that is handled, and from there on it stays raised with nothing outstanding
(`snapshotFlag_iff`).
-/
import WWRaftKV.Core.Emit
import WWRaftKV.Core.Places
import WWRaftKV.Node.Books

namespace WWRaftKV

open Raft

/-! ## One step of the core -/

/-- The answer that is handled is not the one to a failed attempt. -/
def AttemptSucceeds (_ : Raft) : Input → Prop
  | .message (.generateSnapshotResponse m) =>
    ¬ (m.lastAppliedIndex = -1 ∧ m.lastAppliedTerm = 0)
  | _ => True

instance (r : Raft) (i : Input) : Decidable (AttemptSucceeds r i) := by
  induction i using Input.casesOn with
  | message m =>
    induction m using RaftMessage.casesOn <;> unfold AttemptSucceeds <;> infer_instance
  | _ => exact .isTrue trivial

/-- The messages about snapshots among these. -/
def aboutSnapshots (ms : List RaftMessage) : Nat := ms.countP (·.aboutSnapshot)

/-- The mark and the requests for a snapshot since the state `r`: nothing, or the mark has
been raised with one request. -/
def Asks (r : Raft) (s : Scope) : Prop :=
  (s.raft.isSnapshoting = r.isSnapshoting ∧ aboutSnapshots (pushedOf s.effects) = 0) ∨
    (r.isSnapshoting = false ∧ s.raft.isSnapshoting = true ∧
      aboutSnapshots (pushedOf s.effects) = 1)

section Core

variable {r : Raft} {i : Input}

theorem aboutSnapshots_emit (es : List Effect) (m : RaftMessage) :
    aboutSnapshots (pushedOf (es ++ [.push m])) =
      aboutSnapshots (pushedOf es) + if m.aboutSnapshot then 1 else 0 := by
  rw [pushedOf_emit, aboutSnapshots, List.countP_append, List.countP_singleton]
  rfl

theorem Asks.same {c d : Scope} (h : Asks r c) (hf : d.raft.isSnapshoting = c.raft.isSnapshoting)
    (hn : aboutSnapshots (pushedOf d.effects) = aboutSnapshots (pushedOf c.effects)) :
    Asks r d := by
  unfold Asks
  rw [hf, hn]
  exact h

theorem Asks.change (hi : ∀ m ∈ i.taken, m.aboutSnapshot = false) {c d : Scope}
    (hc : Change r i c d) (h : Asks r c) : Asks r d := by
  cases hc with
  | emit _ m hm =>
    refine h.same rfl ?_
    rw [Scope.emit_effects, aboutSnapshots_emit, hm.aboutSnapshot]
    rfl
  | turn _ r' hk => exact h.same (isSnapshoting_of_marks hk) rfl
  | vote _ r' hk =>
    refine h.same (isSnapshoting_of_marks hk) ?_
    rw [Scope.save_effects, pushedOf_save]
  | sync _ m => exact h.same rfl (congrArg aboutSnapshots (pushedOf_save _ _))
  | reject _ m t => exact h.same (truncateAfter_isSnapshoting _ _) rfl
  | write m text => exact h.same rfl (congrArg aboutSnapshots (pushedOf_save _ _))
  | hand _ es =>
    refine h.same rfl ?_
    rw [Scope.emit_effects, aboutSnapshots_emit]
    rfl
  | demand _ t hs =>
    rcases h with ⟨hf, hn⟩ | ⟨_, hf, _⟩
    · refine .inr ⟨hf.symm.trans hs, rfl, ?_⟩
      rw [Scope.emit_effects, aboutSnapshots_emit, hn]
      rfl
    · rw [hs] at hf
      cases hf
  | generated m hm =>
    subst hm
    have hnot := hi _ List.mem_cons_self
    cases hnot
  | installed m => exact h.same (truncateBefore_isSnapshoting _ r) rfl
  | _ => exact h.same rfl rfl

/-- A step that does not handle an answer about a snapshot. -/
theorem react_asks (hi : ∀ m ∈ i.taken, m.aboutSnapshot = false)
    (ht : (r.react i).thrown = false) : Asks r (r.react i).scope :=
  (react_goes ht).invariant (.inl ⟨rfl, rfl⟩) fun _ _ hc h => h.change hi hc

theorem pushed_generated (m : GenerateSnapshotResponseMessage) :
    (r.react (.message (.generateSnapshotResponse m))).pushed = [] := by
  unfold Reaction.pushed
  rw [react_eq]
  show pushedOf (RaftM.endScope ((handleGenerateSnapshot m).run _)).effects = _
  unfold handleGenerateSnapshot
  rw [RaftM.ite_run]
  split <;> rfl

/-- The handler returns before it lowers the mark. -/
theorem react_failedAttempt {m : GenerateSnapshotResponseMessage}
    (hno : m.lastAppliedIndex = -1 ∧ m.lastAppliedTerm = 0) :
    (r.react (.message (.generateSnapshotResponse m))).raft = r := by
  rw [react_eq]
  show (RaftM.endScope ((handleGenerateSnapshot m).run _)).raft = _
  unfold handleGenerateSnapshot
  rw [RaftM.ite_run, if_pos hno]
  rfl

end Core

/-! ## One step of a process -/

namespace Process

/-- How many requests and answers about snapshots are outstanding. -/
def attempts (p : Process) : Nat := aboutSnapshots p.channel

/-- The mark says whether exactly one request or answer about a snapshot is outstanding. -/
structure SnapshotFlag (p : Process) : Prop where
  raised : p.raft.isSnapshoting = true ↔ p.attempts = 1
  lowered : p.raft.isSnapshoting = false ↔ p.attempts = 0

/-- Requests for a snapshot go to the clerk, and answers to the core. -/
structure OneWay (p : Process) : Prop where
  inner : ∀ x ∈ p.inner, ∀ m, x.msg ≠ .generateSnapshotResponse m
  outter : ∀ x ∈ p.outter, ∀ m, x.msg ≠ .generateSnapshotRequest m

/-- What an event does to the mark and to the outstanding messages. -/
inductive FlagStep (p : Process) (e : Event) (p' : Process) : Prop
  | same (hok : p.Obeys AttemptSucceeds e) (hf : p'.raft.isSnapshoting = p.raft.isSnapshoting)
      (hn : p'.attempts = p.attempts)
  | ask (hok : p.Obeys AttemptSucceeds e) (hf : p.raft.isSnapshoting = false)
      (hf' : p'.raft.isSnapshoting = true) (hn : p'.attempts = p.attempts + 1)
  | done (hok : p.Obeys AttemptSucceeds e) (hf : p'.raft.isSnapshoting = false)
      (hn : p.attempts = p'.attempts + 1)
  | failed (hno : ¬ p.Obeys AttemptSucceeds e)
      (hf : p'.raft.isSnapshoting = p.raft.isSnapshoting) (hn : p.attempts = p'.attempts + 1)

section Step

variable {p p' : Process} {e : Event}

theorem attempts_of_perm {ms : List RaftMessage} (h : p.channel.Perm ms) :
    p.attempts = aboutSnapshots ms := h.countP_eq _

theorem attempts_eq (p : Process) : p.attempts =
    aboutSnapshots (p.inner.map (·.msg)) + aboutSnapshots (p.outter.map (·.msg)) := by
  rw [attempts, channel, List.map_append, aboutSnapshots, List.countP_append]
  rfl

/-- The clerk answers every request, and no other message about snapshots reaches it. -/
theorem attempts_attends {b : Bool} {x : Item}
    (hx : ∀ m, x.msg ≠ .generateSnapshotResponse m) :
    aboutSnapshots ((clerkAnswer b x.msg).toList) = aboutSnapshots [x.msg] := by
  cases hm : clerkAnswer b x.msg with
  | some m =>
    have habout := clerkAnswer_aboutSnapshot hm
    simp [aboutSnapshots, List.countP_singleton, habout]
  | none =>
    cases hmsg : x.msg with
    | generateSnapshotRequest q =>
      rw [hmsg] at hm
      cases hm
    | generateSnapshotResponse q => exact absurd hmsg (hx q)
    | _ => rfl

theorem clerkAnswer_ne_request {b : Bool} {m x : RaftMessage} (h : clerkAnswer b x = some m)
    (q : GenerateSnapshotRequestMessage) : m ≠ .generateSnapshotRequest q := by
  cases x with
  | applyCommitLogsRequest x => exact Option.some.inj h ▸ nofun
  | generateSnapshotRequest x => exact Option.some.inj h ▸ nofun
  | applySnapshotRequest x => exact Option.some.inj h ▸ nofun
  | _ => cases h

/-- Every event keeps the ways of the messages. -/
theorem OneWay.step (h : p.OneWay) (hs : p.step e = some p') : p'.OneWay := by
  cases (does_of_step hs).2 with
  | turn i cause xs outter hi hout hxs =>
    constructor
    · intro x hx m hm
      rcases List.mem_append.mp hx with hx | hx
      · exact h.inner x hx m hm
      · obtain ⟨y, hy, rfl⟩ := List.mem_map.mp hx
        have hy' := react_emitted p.raft i y hy
        rw [show y = _ from hm] at hy'
        exact hy'
    · intro x hx
      exact h.outter x (hout ▸ List.mem_append_right xs hx)
  | arrives x _ _ hx _ _ _ hinner hout =>
    refine ⟨hinner ▸ h.inner, fun y hy m hm => ?_⟩
    rw [hout] at hy
    rcases List.mem_append.mp hy with hy | hy
    · exact h.outter y hy m hm
    · have hlocal := hx y (Option.mem_toList.mp hy)
      rw [hm] at hlocal
      cases hlocal
  | attends b x xs _ hinner =>
    obtain ⟨_, _, hin, hout⟩ := serve_spec { p with inner := xs } b x
    constructor
    · rw [hin]
      exact fun y hy => h.inner y (hinner ▸ List.mem_cons_of_mem x hy)
    · rw [hout]
      intro y hy
      rcases List.mem_append.mp hy with hy | hy
      · exact h.outter y hy
      · obtain ⟨m, hm, rfl⟩ := List.mem_map.mp hy
        exact clerkAnswer_ne_request (Option.mem_toList.mp hm)

/-- The outstanding messages before and after a turn. -/
theorem attempts_turn {i : Input} (cause : Option Nat) {xs outter : List Item}
    (hout : p.outter = xs ++ outter) (hxs : xs.map (·.msg) = i.taken) :
    p.attempts = aboutSnapshots i.taken + ({ p with outter := outter } : Process).attempts ∧
      ({ p with outter := outter }.react i cause).attempts =
        ({ p with outter := outter } : Process).attempts +
          aboutSnapshots (p.raft.react i).pushed := by
  constructor
  · have hcount := attempts_of_perm (channel_taken hout hxs)
    rw [aboutSnapshots, List.countP_append] at hcount
    exact hcount
  · have hperm := channel_react (p := { p with outter := outter }) i cause
    have hcount := attempts_of_perm hperm.symm
    rw [aboutSnapshots, List.countP_append] at hcount
    exact hcount

/-- The core handles an answer about a snapshot. -/
theorem flagStep_answer {m : GenerateSnapshotResponseMessage} {cause : Option Nat}
    {xs outter : List Item} (hi : p.turn e = some (.message (.generateSnapshotResponse m)))
    (hout : p.outter = xs ++ outter)
    (hxs : xs.map (·.msg) = [.generateSnapshotResponse m]) :
    p.FlagStep e
      ({ p with outter := outter }.react (.message (.generateSnapshotResponse m)) cause) := by
  obtain ⟨hbefore, hafter⟩ := attempts_turn cause
    (i := .message (.generateSnapshotResponse m)) hout hxs
  have hone : aboutSnapshots (Input.message (.generateSnapshotResponse m)).taken = 1 := rfl
  rw [pushed_generated] at hafter
  have hzero : aboutSnapshots [] = 0 := rfl
  by_cases hno : m.lastAppliedIndex = -1 ∧ m.lastAppliedTerm = 0
  · apply FlagStep.failed
    · intro hok
      exact hok _ hi hno
    · exact congrArg Raft.isSnapshoting (react_failedAttempt hno)
    · omega
  · apply FlagStep.done
    · intro t ht
      obtain rfl := Option.some.inj (hi.symm.trans ht)
      exact hno
    · exact congrArg Raft.isSnapshoting (react_generated hno)
    · omega

/-- The core handles any other input. -/
theorem flagStep_other {i : Input} {cause : Option Nat} {xs outter : List Item} (h : p.OneWay)
    (hi : p.turn e = some i) (hout : p.outter = xs ++ outter)
    (hxs : xs.map (·.msg) = i.taken) (hm : ∀ m, i ≠ .message (.generateSnapshotResponse m))
    (ht : (p.raft.react i).thrown = false) :
    p.FlagStep e ({ p with outter := outter }.react i cause) := by
  have hother : ∀ m ∈ i.taken, m.aboutSnapshot = false := by
    intro m hmem
    obtain ⟨x, hx, rfl⟩ := List.mem_map.mp (hxs ▸ hmem)
    have hreq := h.outter x (hout ▸ List.mem_append_left outter hx)
    cases i with
    | message m =>
      rw [Input.taken, List.mem_singleton] at hmem
      rw [hmem] at hreq ⊢
      cases m with
      | generateSnapshotRequest q => exact absurd rfl (hreq q)
      | generateSnapshotResponse q => exact absurd rfl (hm q)
      | _ => rfl
    | _ => cases hmem
  have hok : p.Obeys AttemptSucceeds e := by
    intro t ht
    obtain rfl := Option.some.inj (hi.symm.trans ht)
    cases i with
    | message m =>
      cases m with
      | generateSnapshotResponse q => exact absurd rfl (hm q)
      | _ => trivial
    | _ => trivial
  obtain ⟨hbefore, hafter⟩ := attempts_turn cause hout hxs
  have hnone : aboutSnapshots i.taken = 0 :=
    List.countP_eq_zero.mpr fun m hmem => by simp [hother m hmem]
  rcases react_asks hother ht with ⟨hf, hn⟩ | ⟨hf, hf', hn⟩
  · have hn' : aboutSnapshots (p.raft.react i).pushed = 0 := hn
    exact .same hok hf (by omega)
  · have hn' : aboutSnapshots (p.raft.react i).pushed = 1 := hn
    exact .ask hok hf hf' (by omega)

theorem attempts_arrives {x : Option Item} (hx : ∀ y ∈ x, y.msg.isLocal = false)
    (hinner : p'.inner = p.inner) (hout : p'.outter = p.outter ++ x.toList) :
    p'.attempts = p.attempts := by
  have hnone : aboutSnapshots (x.toList.map (·.msg)) = 0 := by
    apply List.countP_eq_zero.mpr
    intro m hm
    obtain ⟨y, hy, rfl⟩ := List.mem_map.mp hm
    rw [(quiet_of_not_isLocal (hx y (Option.mem_toList.mp hy))).aboutSnapshot]
    exact Bool.false_ne_true
  rw [attempts_eq, attempts_eq, hinner, hout, List.map_append, aboutSnapshots,
    aboutSnapshots, List.countP_append]
  simp only [aboutSnapshots] at hnone ⊢
  omega

/-- The answer of the clerk takes the place of the request. -/
theorem attempts_serve {b : Bool} {x : Item} {xs : List Item} (h : p.OneWay)
    (hinner : p.inner = x :: xs) :
    ({ p with inner := xs }.serve b x).attempts = p.attempts := by
  obtain ⟨_, _, hin, hout⟩ := serve_spec { p with inner := xs } b x
  have hanswer := attempts_attends (b := b) (h.inner x (hinner ▸ List.mem_cons_self))
  have hmap : ((clerkAnswer b x.msg).toList.map fun m => ({ x with msg := m } : Item)).map
      (·.msg) = (clerkAnswer b x.msg).toList := by
    rw [List.map_map]
    exact List.map_id _
  rw [attempts_eq, attempts_eq, hin, hout, hinner, List.map_append, hmap, List.map_cons]
  simp only [aboutSnapshots, List.countP_append, List.countP_cons, List.countP_nil]
    at hanswer ⊢
  omega

theorem flagStep (h : p.OneWay) (hs : p.step e = some p') (ha : p'.alive = true) :
    p.FlagStep e p' := by
  have hobeys : p.turn e = none → p.Obeys AttemptSucceeds e := by
    intro hi t ht
    rw [hi] at ht
    cases ht
  cases (does_of_step hs).2 with
  | turn i cause xs outter hi hout hxs =>
    by_cases hm : ∃ m, i = .message (.generateSnapshotResponse m)
    · obtain ⟨m, rfl⟩ := hm
      exact flagStep_answer hi hout hxs
    · have ht : (p.raft.react i).thrown = false := by simpa [react] using ha
      exact flagStep_other h hi hout hxs (fun m hi => hm ⟨m, hi⟩) ht
  | arrives x _ hi hx hraft _ _ hinner hout =>
    exact .same (hobeys hi) (congrArg Raft.isSnapshoting hraft) (attempts_arrives hx hinner hout)
  | attends b x xs hi hinner =>
    have hraft := (serve_spec { p with inner := xs } b x).1
    exact .same (hobeys hi) (congrArg Raft.isSnapshoting hraft) (attempts_serve h hinner)

end Step

/-! ## Runs -/

/-- A live process whose mark has been exact so far. -/
structure Counted (p : Process) : Prop where
  oneWay : p.OneWay
  exact : p.attempts = if p.raft.isSnapshoting then 1 else 0

/-- A live process that takes no snapshot any more. -/
structure Stuck (p : Process) : Prop where
  oneWay : p.OneWay
  raised : p.raft.isSnapshoting = true
  none : p.attempts = 0

section Runs

variable {p p' : Process} {e : Event}

theorem Counted.good (h : p.Counted) (hok : p.Obeys AttemptSucceeds e)
    (hs : p.step e = some p') (ha : p'.alive = true) : p'.Counted := by
  have hexact := h.exact
  refine ⟨h.oneWay.step hs, ?_⟩
  cases flagStep h.oneWay hs ha with
  | same _ hf hn => rw [hf, hn, hexact]
  | ask _ hf hf' hn =>
    rw [hf] at hexact
    rw [hf', hn, hexact]
    rfl
  | done _ hf hn =>
    rw [hf, if_neg Bool.false_ne_true]
    split at hexact <;> omega
  | failed hno => exact absurd hok hno

theorem Counted.bad (h : p.Counted) (hno : ¬ p.Obeys AttemptSucceeds e)
    (hs : p.step e = some p') (ha : p'.alive = true) : p'.Stuck := by
  have hexact := h.exact
  cases flagStep h.oneWay hs ha with
  | same hok => exact absurd hok hno
  | ask hok => exact absurd hok hno
  | done hok => exact absurd hok hno
  | failed _ hf hn =>
    cases hr : p.raft.isSnapshoting with
    | true =>
      rw [hr, if_pos rfl] at hexact
      exact ⟨h.oneWay.step hs, hf.trans hr, by omega⟩
    | false =>
      rw [hr, if_neg Bool.false_ne_true] at hexact
      omega

/-- A failed attempt is never made good. -/
theorem Stuck.stays (h : p.Stuck) (hs : p.step e = some p') (ha : p'.alive = true) :
    p'.Stuck := by
  have hnone := h.none
  have hraised := h.raised
  cases flagStep h.oneWay hs ha with
  | same _ hf hn => exact ⟨h.oneWay.step hs, hf.trans hraised, hn.trans hnone⟩
  | ask _ hf =>
    rw [hraised] at hf
    cases hf
  | done _ _ hn => omega
  | failed _ _ hn => omega

theorem Counted.snapshotFlag (h : p.Counted) : p.SnapshotFlag := by
  have hexact := h.exact
  cases hr : p.raft.isSnapshoting with
  | true =>
    rw [hr, if_pos rfl] at hexact
    constructor <;> simp [hr, hexact]
  | false =>
    rw [hr, if_neg Bool.false_ne_true] at hexact
    constructor <;> simp [hr, hexact]

theorem Stuck.not_snapshotFlag (h : p.Stuck) : ¬ p.SnapshotFlag := by
  intro hf
  have hone := hf.raised.mp h.raised
  rw [h.none] at hone
  cases hone

theorem counted_init (id : Int) (ids : List Int) (file : Option RaftPersistData) :
    (init id ids file).Counted where
  oneWay := ⟨fun x hx => absurd hx List.not_mem_nil, fun x hx => absurd hx List.not_mem_nil⟩
  exact := by
    have hf : (restart id ids file).isSnapshoting = false := by cases file <;> rfl
    show 0 = if (restart id ids file).isSnapshoting then 1 else 0
    rw [hf]
    rfl

end Runs

end Process

open Process

/-- The mark is exact in the state that a run has reached, if and only if the run has not
handled the answer to a failed attempt. -/
theorem snapshotFlag_iff (id : Int) (ids : List Int) (file : Option RaftPersistData)
    {ok : Process → Event → Prop} (es : List Event) (p : Process)
    (hr : Transition.Run step ok (Process.init id ids file) es p) (ha : p.alive = true) :
    p.SnapshotFlag ↔
      Transition.Along step (Obeys AttemptSucceeds) (Process.init id ids file) es := by
  obtain ⟨hgood, hbad⟩ := Transition.Along.phases (P := Obeys AttemptSucceeds)
    (I := fun p => p.alive = true → p.Counted) (J := fun p => p.alive = true → p.Stuck)
    (fun s e t h hok hs hlive => (h (does_of_step hs).1).good hok hs hlive)
    (fun s e t h hno hs hlive => (h (does_of_step hs).1).bad hno hs hlive)
    (fun s e t h hs hlive => (h (does_of_step hs).1).stays hs hlive) hr
    fun _ => counted_init id ids file
  constructor
  · intro hf
    by_contra hn
    exact (hbad hn ha).not_snapshotFlag hf
  · exact fun h => (hgood h ha).snapshotFlag

/-- A follower with three entries applied, up to the request for a snapshot. -/
def snapshotAsked : List Event :=
  [.request 0 (.appendEntriesRequest
      { term := 1, fromId := 0, prevLogIndex := 0, prevLogTerm := 0, leaderCommit := 3,
        entries := [{ term := 1 }, { term := 1 }, { term := 1 }] }),
    .handle, .clerk true, .clerk true, .handle]

theorem snapshotFlag_asked :
    ∃ p, Transition.Run step (Obeys AttemptSucceeds) (Process.init 1 [0, 1, 2] none)
      snapshotAsked p ∧ p.raft.isSnapshoting = true ∧ p.SnapshotFlag := by
  have hrun : ∃ p, Transition.Run step (Obeys AttemptSucceeds) (Process.init 1 [0, 1, 2] none)
      snapshotAsked p ∧ decide (p.alive = true ∧ p.raft.isSnapshoting = true) = true :=
    Transition.Run.exists_of_exec (by decide +kernel)
  obtain ⟨p, hr, hp⟩ := hrun
  obtain ⟨ha, hf⟩ := of_decide_eq_true hp
  exact ⟨p, hr, hf, (snapshotFlag_iff 1 [0, 1, 2] none snapshotAsked p hr ha).mpr
    (Transition.Along.of_run hr)⟩

/-- The clerk cannot write the snapshot, and the core handles its answer. -/
def snapshotFails : List Event := snapshotAsked ++ [.clerk false, .handle]

theorem snapshot_never_again :
    ¬ ∀ (id : Int) (ids : List Int) (file : Option RaftPersistData) (p : Process),
      Reaches (Obeys anyInput) id ids file p → p.alive = true → p.SnapshotFlag := by
  intro h
  obtain ⟨p, hr, hp⟩ := Reaches.of_exec (Obeys anyInput) 1 [0, 1, 2] none snapshotFails
    (fun p => decide (p.alive = true ∧ p.raft.isSnapshoting = true ∧ p.channel = []))
    (by decide +kernel)
  obtain ⟨ha, hf, hc⟩ := of_decide_eq_true hp
  have hone := (h 1 [0, 1, 2] none p hr ha).raised.mp hf
  rw [attempts, hc] at hone
  cases hone

end WWRaftKV
