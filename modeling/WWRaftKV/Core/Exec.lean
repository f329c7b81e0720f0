/-
Running commands.

The `_run` lemmas execute a command on a scope.  `Frame R c` says that the end
of `c`, reached or thrown, is related to its start by `R`.  For a reflexive and
transitive relation the frames are closed under every way of building commands,
so a handler that touches nothing of interest is framed by walking through its
text.
-/
import WWRaftKV.Core.Handlers

namespace WWRaftKV

/-! ## Running -/

namespace RaftM

theorem bind_run {α β : Type} (c : RaftM α) (f : α → RaftM β) (s : Scope) :
    (c >>= f).run s = match c.run s with
      | .ok a s' => (f a).run s'
      | .error e s' => .error e s' := by
  have h : (c >>= f).run s = EStateM.bind c f s := rfl
  rw [h, EStateM.bind]
  unfold EStateM.run
  cases c s <;> rfl

theorem pure_run {α : Type} (a : α) (s : Scope) : (pure a : RaftM α).run s = .ok a s := rfl

theorem ite_run {α : Type} (p : Prop) [Decidable p] (a b : RaftM α) (s : Scope) :
    (if p then a else b).run s = if p then a.run s else b.run s := by
  split <;> rfl

/-- The scope at the end of a command, whether it returned or threw. -/
def endScope {α : Type} : EStateM.Result OutOfRange Scope α → Scope
  | .ok _ s => s
  | .error _ s => s

@[simp] theorem endScope_ok {α : Type} (a : α) (s : Scope) :
    endScope (.ok a s : EStateM.Result OutOfRange Scope α) = s := rfl

def isThrow {α : Type} : EStateM.Result OutOfRange Scope α → Bool
  | .ok _ _ => false
  | .error _ _ => true

/-! ## Frames -/

def Frame {α : Type} (R : Scope → Scope → Prop) (c : RaftM α) : Prop :=
  ∀ s, R s (endScope (c.run s))

namespace Frame

variable {R : Scope → Scope → Prop} {α β : Type}

theorem pure (hr : ∀ s, R s s) (a : α) : Frame R (pure a : RaftM α) := fun s => hr s

theorem bind (ht : ∀ a b c, R a b → R b c → R a c) {c : RaftM α} {f : α → RaftM β}
    (hc : Frame R c) (hf : ∀ a, Frame R (f a)) : Frame R (c >>= f) := by
  intro s
  have h := hc s
  rw [bind_run]
  cases hcs : c.run s with
  | ok a s' =>
    rw [hcs] at h
    exact ht _ _ _ h (hf a s')
  | error e s' =>
    rw [hcs] at h
    exact h

theorem ite {p : Prop} [Decidable p] {a b : RaftM α} (ha : Frame R a) (hb : Frame R b) :
    Frame R (if p then a else b) := by
  split
  · exact ha
  · exact hb

theorem fields (hr : ∀ s, R s s) : Frame R Raft.fields := fun s => hr s

theorem orThrow (hr : ∀ s, R s s) (x : Option α) : Frame R (Raft.orThrow x) := by
  intro s
  cases x with
  | none => exact hr s
  | some a => exact hr s

theorem forM (hr : ∀ s, R s s) (ht : ∀ a b c, R a b → R b c → R a c)
    {f : α → RaftM PUnit} (hf : ∀ a, Frame R (f a)) (xs : List α) : Frame R (xs.forM f) := by
  induction xs with
  | nil => exact Frame.pure hr _
  | cons x xs ih => exact Frame.bind ht (hf x) fun _ => ih

end Frame

end RaftM

section Effects

variable (es fs : List Effect) (m : RaftMessage) (ms : List RaftMessage) (d : RaftPersistData)

@[simp] theorem pushedOf_nil : pushedOf [] = [] := rfl

@[simp] theorem pushedOf_push : pushedOf (.push m :: es) = m :: pushedOf es := rfl

@[simp] theorem pushedOf_persist : pushedOf (.persist d :: es) = pushedOf es := rfl

@[simp] theorem pushedOf_append : pushedOf (es ++ fs) = pushedOf es ++ pushedOf fs :=
  List.filterMap_append

theorem pushedOf_emit : pushedOf (es ++ [.push m]) = pushedOf es ++ [m] := by
  rw [pushedOf_append, pushedOf_push, pushedOf_nil]

theorem pushedOf_save : pushedOf (es ++ [.persist d]) = pushedOf es := by
  rw [pushedOf_append, pushedOf_persist, pushedOf_nil, List.append_nil]

@[simp] theorem pushedOf_map_push : pushedOf (ms.map Effect.push) = ms := by
  induction ms with
  | nil => rfl
  | cons m ms ih => rw [List.map_cons, pushedOf_push, ih]

@[simp] theorem persistedOf_nil : persistedOf [] = [] := rfl

@[simp] theorem persistedOf_push : persistedOf (.push m :: es) = persistedOf es := rfl

@[simp] theorem persistedOf_persist :
    persistedOf (.persist d :: es) = d :: persistedOf es := rfl

@[simp] theorem persistedOf_append :
    persistedOf (es ++ fs) = persistedOf es ++ persistedOf fs := List.filterMap_append

end Effects

namespace Raft

open RaftM

theorem fields_run (s : Scope) : fields.run s = .ok s.raft s := rfl

theorem assign_run (f : Raft → Raft) (s : Scope) :
    (assign f).run s = .ok () { s with raft := f s.raft } := rfl

theorem push_run (m : RaftMessage) (s : Scope) :
    (push m).run s = .ok () { s with effects := s.effects ++ [.push m] } := rfl

theorem persist_run (s : Scope) :
    persist.run s = .ok () { s with effects := s.effects ++ [.persist s.raft.persistData] } := rfl

theorem orThrow_some_run {α : Type} (a : α) (s : Scope) :
    (orThrow (some a)).run s = .ok a s := rfl

theorem react_eq (r : Raft) (i : Input) :
    r.react i =
      { raft := (endScope ((command i).run { raft := r, effects := [] })).raft
        effects := (endScope ((command i).run { raft := r, effects := [] })).effects
        thrown := isThrow ((command i).run { raft := r, effects := [] }) } := by
  unfold react runCommand
  cases (command i).run { raft := r, effects := [] } <;> rfl

/-! ## Straight commands -/

theorem becomeFollower_run (leaderId : Int) (t : Nat) (r : Raft) (es : List Effect) :
    (becomeFollower leaderId t).run { raft := r, effects := es } =
      .ok () {
        raft := r.toFollower leaderId t
        effects := es ++ [.persist (r.toFollower leaderId t).persistData] } := by
  rw [becomeFollower, bind_run, assign_run]
  rfl

/-- The node after `observeTerm`. -/
def observe (leaderId : Int) (t : Nat) (r : Raft) : Raft :=
  if t > r.term then r.toFollower leaderId t else r

def observeEffects (leaderId : Int) (t : Nat) (r : Raft) : List Effect :=
  if t > r.term then [.persist (r.toFollower leaderId t).persistData] else []

theorem observeTerm_run (leaderId : Int) (t : Nat) (r : Raft) (es : List Effect) :
    (observeTerm leaderId t).run { raft := r, effects := es } =
      .ok () {
        raft := r.observe leaderId t
        effects := es ++ r.observeEffects leaderId t } := by
  rw [observeTerm, bind_run, fields_run]
  simp only [observe, observeEffects]
  by_cases h : t > r.term
  · simp only [h, if_true]
    exact becomeFollower_run leaderId t r es
  · simp only [h, if_false, List.append_nil]
    rfl

/-- The vote requests of a candidacy, one for every other peer. -/
def voteRequests (r : Raft) : List RaftMessage :=
  (r.peers.filter fun p => p.id ≠ r.id).map r.requestVoteTo

theorem forM_nil_run {α : Type} (f : α → RaftM PUnit) (s : Scope) :
    (([] : List α).forM f).run s = .ok () s := rfl

theorem forM_cons_run {α : Type} (f : α → RaftM PUnit) (x : α) (xs : List α) (s : Scope) :
    ((x :: xs).forM f).run s = (f x >>= fun _ => xs.forM f).run s := rfl

theorem forM_voteRequests_run (r : Raft) (es : List Effect) (ps : List RaftPeer) :
    (ps.forM fun p =>
        if p.id = r.id then (pure () : RaftM Unit) else push (r.requestVoteTo p)).run
        { raft := r, effects := es } =
      .ok () {
        raft := r
        effects := es ++
          ((ps.filter fun p => p.id ≠ r.id).map r.requestVoteTo).map Effect.push } := by
  induction ps generalizing es with
  | nil =>
    rw [forM_nil_run, List.filter_nil, List.map_nil, List.map_nil, List.append_nil]
  | cons p ps ih =>
    rw [forM_cons_run, bind_run, ite_run]
    by_cases h : p.id = r.id
    · simp only [h, if_true, pure_run]
      rw [ih]
      simp [h]
    · simp only [h, if_false, push_run]
      rw [ih]
      simp [h]

theorem becomeCandidate_run (r : Raft) (es : List Effect) :
    becomeCandidate.run { raft := r, effects := es } =
      .ok () {
        raft := r.toCandidate
        effects := es ++ .persist r.toCandidate.persistData ::
          r.toCandidate.voteRequests.map Effect.push } := by
  simp only [becomeCandidate, bind_run, assign_run, persist_run, fields_run]
  rw [forM_voteRequests_run]
  simp [voteRequests]

end Raft

end WWRaftKV
