/-
What one step of the core does to the log, the commit marks and the peers.

`react_log` walks through every handler once.  It is stated for any notion `safe` of
indices that may be committed and any condition `peers` on the peer list: what a
handler takes from a message is asked for by `Fair`, what it tells others is
guaranteed by `Speaks`.  Log matching uses it with trivial notions, commitment with
real ones.
-/
import WWRaftKV.Core.Window
import WWRaftKV.General.Triple

namespace WWRaftKV

open Command

namespace Raft

open RaftM

/-- The request is accepted by step 2 of `_HandleAppendEntriesRequest`. -/
def Accepts (r : Raft) (m : RaftAppendEntriesRequestMessage) : Prop :=
  r.term ≤ m.term ∧ r.logMatch m.prevLogIndex m.prevLogTerm = some true

instance (r : Raft) (m : RaftAppendEntriesRequestMessage) : Decidable (r.Accepts m) := by
  unfold Accepts
  infer_instance

/-- The entry a leader makes of a client operation.  A read makes none. -/
def clientEntry (r : Raft) (m : KVOperationRequestMessage) : Option RaftLogEntry :=
  (commandText m.opType m.key m.value).map fun command =>
    { uuid := m.uuid, sequenceId := m.seq, term := r.term, command := command }

/-- The entries that handling an input adds to the log. -/
def fresh (r : Raft) : Input → List RaftLogEntry
  | .message (.appendEntriesRequest m) => if r.Accepts m then m.entries else []
  | .message (.kvOperationRequest m) =>
    if r.role = .leader then (r.clientEntry m).toList else []
  | _ => []

def logAfter (r : Raft) (l : CoreLog) (i : Input) : CoreLog :=
  l ++ (r.fresh i).map RaftLogEntry.core

/-- What the walk is about: the input, the state before it, the log after it, and the
two conditions that are tracked. -/
structure Watch where
  input : Input
  before : Raft
  log : CoreLog
  safe : Int → Prop
  peers : RaftRole → List RaftPeer → Prop

structure Tracks (W : Watch) (r : Raft) : Prop where
  id : r.id = W.before.id
  commit : W.safe r.lastCommitIndex
  applied : W.safe r.lastAppliedIndex
  included : W.safe r.lastIncludedIndex
  peers : W.peers r.role r.peers

/-- The entries handed to the clerk stand in the log right below the commit index. -/
def Handed (l : CoreLog) (m : ApplyCommitLogsRequestMessage) : Prop :=
  ∀ (k : Nat) (e : RaftLogEntry), m.entries[k]? = some e →
    1 ≤ m.lastCommitIndex - m.entries.length + 1 + k ∧
      l[(m.lastCommitIndex - m.entries.length + k).toNat]? = some e.core

/-- What the messages of a node in term `t` and role `ρ` promise. -/
def Speaks (W : Watch) (t : Nat) (ρ : RaftRole) : RaftMessage → Prop
  | .appendEntriesRequest m =>
    ρ = .leader ∧ m.term = t ∧ m.toId ≠ W.before.id ∧ W.safe m.leaderCommit ∧
      0 ≤ m.prevLogIndex ∧
      m.entries.map RaftLogEntry.core <+: W.log.drop m.prevLogIndex.toNat ∧
      Label W.log m.prevLogIndex m.prevLogTerm
  | .appendEntriesResponse m => m.success = true →
    m.term = t ∧ m.lastLogIndex = W.log.length ∧
      ∃ q, W.input = .message (.appendEntriesRequest q) ∧ W.before.Accepts q
  | .installSnapshotRequest m =>
    ρ = .leader ∧ m.term = t ∧ m.toId ≠ W.before.id ∧ W.safe m.lastIncludedIndex ∧
      Label W.log m.lastIncludedIndex m.lastIncludedTerm
  | .applySnapshotRequest m =>
    ∃ q, W.input = .message (.installSnapshotRequest q) ∧ q.term ≤ t ∧
      m.lastIncludedIndex = q.lastIncludedIndex ∧ m.lastIncludedTerm = q.lastIncludedTerm
  | .installSnapshotResponse _ =>
    (∃ q, W.input = .message (.installSnapshotRequest q)) ∨
      ∃ q, W.input = .message (.applySnapshotResponse q)
  | .applyCommitLogsRequest m => W.safe m.lastCommitIndex ∧ Handed W.log m
  | .generateSnapshotRequest m =>
    W.safe m.lastAppliedIndex ∧ Label W.log m.lastAppliedIndex m.lastAppliedTerm
  | _ => True

/-- A point of a handler in term `t` and role `ρ`. -/
structure Sound (W : Watch) (t : Nat) (ρ : RaftRole) (s : Scope) : Prop where
  holds : s.raft.Holds W.log
  term : s.raft.term = t
  role : s.raft.role = ρ
  tracks : Tracks W s.raft
  speaks : ∀ m ∈ pushedOf s.effects, Speaks W t ρ m

/-- A throw.  Only a rejected request leaves a shortened vector behind. -/
structure Torn (W : Watch) (t : Nat) (ρ : RaftRole) (s : Scope) : Prop where
  part : s.raft.Part W.log
  whole : (∀ m, W.input ≠ .message (.appendEntriesRequest m)) → s.raft.Holds W.log
  term : s.raft.term = t
  role : s.raft.role = ρ
  tracks : Tracks W s.raft
  speaks : ∀ m ∈ pushedOf s.effects, Speaks W t ρ m

variable {W : Watch} {t : Nat} {ρ : RaftRole}

theorem Sound.torn {s : Scope} (h : Sound W t ρ s) : Torn W t ρ s where
  part := h.holds.part
  whole := fun _ => h.holds
  term := h.term
  role := h.role
  tracks := h.tracks
  speaks := h.speaks

theorem Torn.emit {s : Scope} {m : RaftMessage} (h : Torn W t ρ s) (hm : Speaks W t ρ m) :
    Torn W t ρ { s with effects := s.effects ++ [.push m] } where
  part := h.part
  whole := h.whole
  term := h.term
  role := h.role
  tracks := h.tracks
  speaks := fun x hx => by
    rw [pushedOf_append] at hx
    rcases List.mem_append.mp hx with hx | hx
    · exact h.speaks x hx
    · rw [List.mem_singleton.mp hx]
      exact hm

theorem Sound.emit {s : Scope} {m : RaftMessage} (h : Sound W t ρ s) (hm : Speaks W t ρ m) :
    Sound W t ρ { s with effects := s.effects ++ [.push m] } where
  holds := h.holds
  term := h.term
  role := h.role
  tracks := h.tracks
  speaks := (h.torn.emit hm).speaks

theorem Sound.write {s : Scope} {d : RaftPersistData} (h : Sound W t ρ s) :
    Sound W t ρ { s with effects := s.effects ++ [.persist d] } where
  holds := h.holds
  term := h.term
  role := h.role
  tracks := h.tracks
  speaks := fun x hx => h.speaks x (by
    rw [pushedOf_append] at hx
    simpa using hx)

/-! ## Rules of the walk -/

section Rules

variable {α : Type} {P : Scope → Prop} {Q : α → Scope → Prop} {E : Scope → Prop}

theorem triple_fields {f : Raft → RaftM α}
    (h : ∀ r, Triple (fun s => P s ∧ s.raft = r) (f r) Q E) :
    Triple P (fields >>= f) Q E := by
  refine Triple.bind (Q := fun r s => P s ∧ s.raft = r) ?_ h
  exact Triple.of_ok fields_run fun _ hs => ⟨hs, rfl⟩

theorem triple_assign {f : Raft → Raft} {Q : Unit → Scope → Prop}
    (h : ∀ s, P s → Q () { s with raft := f s.raft }) : Triple P (assign f) Q E :=
  Triple.of_ok (assign_run f) h

theorem triple_push {m : RaftMessage} {Q : Unit → Scope → Prop}
    (h : ∀ s, P s → Q () { s with effects := s.effects ++ [.push m] }) :
    Triple P (push m) Q E := Triple.of_ok (push_run m) h

theorem triple_persist {Q : Unit → Scope → Prop}
    (h : ∀ s, P s → Q () { s with effects := s.effects ++ [.persist s.raft.persistData] }) :
    Triple P persist Q E := Triple.of_ok persist_run h

theorem triple_orThrow {x : Option α} (hs : ∀ a s, x = some a → P s → Q a s)
    (hn : x = none → ∀ s, P s → E s) : Triple P (orThrow x) Q E := by
  intro s hp
  cases x with
  | some a => exact hs a s rfl hp
  | none => exact hn rfl s hp

end Rules

/-- A change of the node that no condition looks at. -/
theorem Sound.assign {s : Scope} {f : Raft → Raft} (h : Sound W t ρ s)
    (hh : (f s.raft).Holds W.log) (ht : (f s.raft).term = s.raft.term)
    (hr : (f s.raft).role = s.raft.role) (hw : Tracks W (f s.raft)) :
    Sound W t ρ { s with raft := f s.raft } where
  holds := hh
  term := ht.trans h.term
  role := hr.trans h.role
  tracks := hw
  speaks := h.speaks

/-- The walk through a command that stays sound. -/
def Steady (W : Watch) (t : Nat) (ρ : RaftRole) (c : RaftM Unit) : Prop :=
  Triple (Sound W t ρ) c (fun _ => Sound W t ρ) (Torn W t ρ)

theorem steady_pure : Steady W t ρ (pure ()) := Triple.pure fun _ h => h

theorem steady_push {m : RaftMessage} (hm : Speaks W t ρ m) : Steady W t ρ (push m) :=
  triple_push fun _ h => h.emit hm

/-! ## Sending entries -/

theorem steady_sendAppendEntriesTo (b : Bool) (p : RaftPeer) :
    Steady W t .leader (sendAppendEntriesTo b p) := by
  refine triple_fields fun r => ?_
  refine Triple.ite (fun _ => Triple.pure fun _ h => h.1) fun hself => ?_
  refine Triple.ite (fun _ => ?_) fun hnext => ?_
  · refine triple_push fun s ⟨h, hr⟩ => h.emit ⟨rfl, hr ▸ h.term, ?_, ?_, ?_⟩
    · exact fun hto => hself (hto.trans (hr ▸ h.tracks.id.symm))
    · exact hr ▸ h.tracks.included
    · exact hr ▸ h.holds.included
  · refine Triple.bind (Q := fun u s => (Sound W t .leader s ∧ s.raft = r) ∧
      r.getTermAt (p.nextIndex - 1) = some u) ?_ fun u => ?_
    · exact triple_orThrow (fun _ _ hu h => ⟨h, hu⟩) fun _ _ h => h.1.torn
    · refine triple_push fun s ⟨⟨h, hr⟩, hu⟩ => ?_
      have hh : r.Holds W.log := hr ▸ h.holds
      have hb := hh.base
      refine h.emit ⟨rfl, hr ▸ h.term, ?_, hr ▸ h.tracks.commit, ?_, ?_,
        hh.label_of_getTermAt hu⟩
      · exact fun hto => hself (hto.trans (hr ▸ h.tracks.id.symm))
      · show 0 ≤ p.nextIndex - 1
        omega
      · cases b with
        | true => exact List.nil_prefix
        | false => exact hh.getLogFrom (by omega)

theorem steady_sendAppendEntries (b : Bool) : Steady W t .leader (sendAppendEntries b) := by
  refine triple_fields fun r => ?_
  exact (Triple.forM (fun p => steady_sendAppendEntriesTo b p) r.peers).pre fun _ h => h.1

/-! ## Commit and snapshot helpers -/

theorem mapM_eq_some {α β : Type} {f : α → Option β} {xs : List α}
    (h : ∀ x ∈ xs, ∃ y, f x = some y) : ∃ ys, xs.mapM f = some ys := by
  induction xs with
  | nil => exact ⟨[], rfl⟩
  | cons x xs ih =>
    obtain ⟨y, hy⟩ := h x List.mem_cons_self
    obtain ⟨ys, hys⟩ := ih fun z hz => h z (List.mem_cons_of_mem _ hz)
    exact ⟨y :: ys, by simp [List.mapM_cons, hy, hys]⟩

theorem mapM_some {α β : Type} {f : α → Option β} {xs : List α} {ys : List β}
    (h : xs.mapM f = some ys) :
    ys.length = xs.length ∧ ∀ (k : Nat) (y : β), ys[k]? = some y →
      ∃ x, xs[k]? = some x ∧ f x = some y := by
  induction xs generalizing ys with
  | nil =>
    obtain rfl : [] = ys := Option.some.inj h
    exact ⟨rfl, fun k y hy => by simp at hy⟩
  | cons x xs ih =>
    rw [List.mapM_cons] at h
    cases hx : f x with
    | none =>
      rw [hx] at h
      cases h
    | some z =>
      rw [hx] at h
      cases hxs : xs.mapM f with
      | none =>
        rw [hxs] at h
        cases h
      | some zs =>
        rw [hxs] at h
        obtain rfl : z :: zs = ys := Option.some.inj h
        obtain ⟨hlen, hget⟩ := ih hxs
        refine ⟨congrArg Nat.succ hlen, fun k y hy => ?_⟩
        cases k with
        | zero => exact ⟨x, rfl, hx.trans hy⟩
        | succ k => exact hget k y hy

theorem applyWindow_getElem? {a c i : Int} {k : Nat} (h : (applyWindow a c)[k]? = some i) :
    i = a + 1 + k ∧ k < (c - a).toNat := by
  rw [applyWindow, List.getElem?_map] at h
  obtain ⟨j, hj, rfl⟩ := Option.map_eq_some_iff.mp h
  obtain ⟨hk, rfl⟩ := List.getElem?_eq_some_iff.mp hj
  rw [List.length_range] at hk
  rw [List.getElem_range]
  exact ⟨rfl, hk⟩

theorem length_applyWindow (a c : Int) : (applyWindow a c).length = (c - a).toNat := by
  rw [applyWindow, List.length_map, List.length_range]

theorem handed_window {r : Raft} {l : CoreLog} (h : r.Part l) {es : List RaftLogEntry}
    (hes : (applyWindow r.lastAppliedIndex r.lastCommitIndex).mapM r.getLogAt = some es) :
    Handed l { lastCommitIndex := r.lastCommitIndex, entries := es } := by
  obtain ⟨hlen, hget⟩ := mapM_some hes
  rw [length_applyWindow] at hlen
  intro k e he
  obtain ⟨i, hi, hlog⟩ := hget k e he
  obtain ⟨rfl, hk⟩ := applyWindow_getElem? hi
  obtain ⟨h1, hl⟩ := h.getLogAt hlog
  show 1 ≤ r.lastCommitIndex - es.length + 1 + k ∧
    l[(r.lastCommitIndex - es.length + k).toNat]? = some e.core
  refine ⟨by omega, ?_⟩
  rw [show (r.lastCommitIndex - es.length + k).toNat = (r.lastAppliedIndex + 1 + k - 1).toNat
    by omega]
  exact hl

theorem steady_applyCommitLogs : Steady W t ρ applyCommitLogs := by
  refine triple_fields fun r => Triple.ite (fun _ => Triple.pure fun _ h => h.1) fun _ => ?_
  refine Triple.bind (Q := fun _ s => Sound W t ρ s ∧ s.raft = r.setIsApplying true) ?_ fun _ => ?_
  · refine triple_assign fun s ⟨h, hr⟩ => ⟨h.assign ?_ rfl rfl ?_, by rw [← hr]⟩
    · exact h.holds.congr rfl rfl rfl rfl rfl rfl
    · exact ⟨h.tracks.id, h.tracks.commit, h.tracks.applied, h.tracks.included, h.tracks.peers⟩
  refine Triple.bind (Q := fun es s => (Sound W t ρ s ∧ s.raft = r.setIsApplying true) ∧
    (applyWindow r.lastAppliedIndex r.lastCommitIndex).mapM r.getLogAt = some es) ?_ fun es => ?_
  · exact triple_orThrow (fun _ _ hu h => ⟨h, hu⟩) fun _ _ h => h.1.torn
  · refine triple_push fun s ⟨⟨h, hr⟩, hes⟩ => h.emit ⟨?_, ?_⟩
    · have hc := h.tracks.commit
      rw [hr] at hc
      exact hc
    · have hp := h.holds.part
      rw [hr] at hp
      exact handed_window (r := r) ⟨hp.base, hp.base_le, hp.logs⟩ hes

theorem steady_generateSnapshot : Steady W t ρ generateSnapshot := by
  refine triple_fields fun r => ?_
  refine Triple.bind (Q := fun u s => (Sound W t ρ s ∧ s.raft = r) ∧
    r.getTermAt r.lastAppliedIndex = some u) ?_ fun u => ?_
  · exact triple_orThrow (fun _ _ hu h => ⟨h, hu⟩) fun _ _ h => h.1.torn
  · refine triple_push fun s ⟨⟨h, hr⟩, hu⟩ => h.emit ⟨hr ▸ h.tracks.applied, ?_⟩
    exact (hr ▸ h.holds).label_of_getTermAt hu

theorem steady_setIsSnapshoting (b : Bool) : Steady W t ρ (assign (setIsSnapshoting b)) :=
  triple_assign fun _ h => h.assign (h.holds.congr rfl rfl rfl rfl rfl rfl) rfl rfl
    ⟨h.tracks.id, h.tracks.commit, h.tracks.applied, h.tracks.included, h.tracks.peers⟩

theorem steady_checkIfNeedSnapshot : Steady W t ρ checkIfNeedSnapshot := by
  refine triple_fields fun r => Triple.ite (fun _ => Triple.pure fun _ h => h.1) fun _ => ?_
  refine Triple.bind ((steady_setIsSnapshoting true).pre fun _ h => h.1) fun _ => ?_
  exact Triple.ite (fun _ => steady_generateSnapshot) fun _ => steady_setIsSnapshoting false

/-! ## What a handler relies on -/

structure Fair (W : Watch) : Prop where
  start : Tracks W W.before
  follow : W.peers .follower W.before.peers
  stand : W.peers .candidate W.before.peers
  lead : W.before.role = .candidate →
    W.peers .leader (W.before.peers.map W.before.resetPeer)
  commit : ∀ m, W.input = .message (.appendEntriesRequest m) → W.before.Accepts m →
    m.leaderCommit > W.before.lastCommitIndex → W.safe (min m.leaderCommit W.log.length)
  /-- A mismatch at the snapshot point lies outside the vector, so `_TruncateAfter` does
  nothing. -/
  mismatch : ∀ m, W.input = .message (.appendEntriesRequest m) → W.before.term ≤ m.term →
    W.before.logMatch m.prevLogIndex m.prevLogTerm = some false →
    W.before.lastIncludedIndex = m.prevLogIndex →
    m.prevLogIndex < W.before.baseIndex ∨ m.prevLogIndex > W.before.lastLogIndex
  answer : ∀ m, W.input = .message (.appendEntriesResponse m) → W.before.role = .leader →
    m.term ≤ W.before.term → m.success = true →
    ∀ r, r = W.before.setPeers
        (updatePeer m.fromId (·.setProgress m.lastLogIndex) W.before.peers) →
      W.peers .leader r.peers ∧
        (r.getTermAt r.majorityMatch = some r.term → W.safe r.majorityMatch)
  retry : ∀ m, W.input = .message (.appendEntriesResponse m) → W.before.role = .leader →
    ∀ i, W.peers .leader (updatePeer m.fromId (·.setNextIndex i) W.before.peers)
  installed : ∀ m, W.input = .message (.installSnapshotResponse m) →
    W.before.role = .leader → m.term = W.before.term → W.peers .leader
      (updatePeer m.fromId (·.setProgress W.before.lastIncludedIndex) W.before.peers)
  applied : ∀ m, W.input = .message (.applyCommitLogsResponse m) → W.safe m.lastCommitIndex
  generated : ∀ m, W.input = .message (.generateSnapshotResponse m) →
    ¬ (m.lastAppliedIndex = -1 ∧ m.lastAppliedTerm = 0) →
    W.safe m.lastAppliedIndex ∧ Label W.log m.lastAppliedIndex m.lastAppliedTerm
  received : ∀ m, W.input = .message (.applySnapshotResponse m) →
    ¬ (m.lastIncludedIndex = -1 ∧ m.lastIncludedTerm = 0) →
    W.safe m.lastIncludedIndex ∧ Label W.log m.lastIncludedIndex m.lastIncludedTerm

/-- Wherever the command ends, the node is sound there, or torn after a throw. -/
def Lands (W : Watch) (P : Scope → Prop) (c : RaftM Unit) : Prop :=
  Triple P c (fun _ s => ∃ t ρ, Sound W t ρ s) fun s => ∃ t ρ, Torn W t ρ s

/-- Nothing but persists has happened since the start, and the node is in state `r`. -/
def At (r : Raft) (s : Scope) : Prop := s.raft = r ∧ pushedOf s.effects = []

section Handlers

variable {r : Raft} {l : CoreLog} {P : Scope → Prop} {c : RaftM Unit}

theorem lands_of_steady (hp : ∀ s, P s → Sound W t ρ s) (hc : Steady W t ρ c) : Lands W P c :=
  (hc.pre hp).conseq (fun _ h => h) (fun _ _ h => ⟨t, ρ, h⟩) fun _ h => ⟨t, ρ, h⟩

theorem lands_fields {f : Raft → RaftM Unit} (h : Lands W (At r) (f r)) :
    Lands W (At r) (fields >>= f) := by
  refine triple_fields fun r' => ?_
  intro s hs
  obtain ⟨hs, rfl⟩ := hs
  rw [hs.1]
  exact h s hs

theorem lands_assign {f : Raft → Raft} {k : Unit → RaftM Unit}
    (h : Lands W (At (f r)) (k ())) : Lands W (At r) (assign f >>= k) :=
  Triple.bind (Q := fun _ => At (f r)) (triple_assign fun _ hs => ⟨congrArg f hs.1, hs.2⟩)
    fun _ => h

theorem lands_persist {k : Unit → RaftM Unit} (h : Lands W (At r) (k ())) :
    Lands W (At r) (persist >>= k) :=
  Triple.bind (Q := fun _ => At r)
    (triple_persist fun s hs => ⟨hs.1, by rw [pushedOf_append, hs.2]; rfl⟩) fun _ => h

theorem lands_observe {i : Int} {u : Nat} {k : Unit → RaftM Unit}
    (h : Lands W (At (r.observe i u)) (k ())) :
    Lands W (At r) (observeTerm i u >>= k) := by
  refine Triple.bind (Q := fun _ => At (r.observe i u)) ?_ fun _ => h
  rintro ⟨r', es⟩ ⟨rfl, hes⟩
  rw [observeTerm_run]
  refine ⟨rfl, ?_⟩
  show pushedOf (es ++ r'.observeEffects i u) = []
  rw [pushedOf_append, hes]
  unfold observeEffects
  split <;> rfl

theorem sound_at (hh : r.Holds W.log) (hw : Tracks W r) {s : Scope} (hs : At r s) :
    Sound W r.term r.role s where
  holds := hs.1 ▸ hh
  term := congrArg Raft.term hs.1
  role := congrArg Raft.role hs.1
  tracks := hs.1 ▸ hw
  speaks := fun m hm => by
    rw [hs.2] at hm
    cases hm

theorem lands_at (hh : r.Holds W.log) (hw : Tracks W r) (hc : Steady W r.term r.role c) :
    Lands W (At r) c := lands_of_steady (fun _ hs => sound_at hh hw hs) hc

theorem lands_at_pure (hh : r.Holds W.log) (hw : Tracks W r) : Lands W (At r) (pure ()) :=
  lands_at hh hw steady_pure

theorem lands_at_push (hh : r.Holds W.log) (hw : Tracks W r) {m : RaftMessage}
    (hm : Speaks W r.term r.role m) : Lands W (At r) (push m) :=
  lands_at hh hw (steady_push hm)

theorem lands_orThrow {α : Type} {x : Option α} {k : α → RaftM Unit} (hh : r.Holds W.log)
    (hw : Tracks W r) (h : ∀ a, x = some a → Lands W (At r) (k a)) :
    Lands W (At r) (orThrow x >>= k) := by
  intro s hs
  rw [bind_run]
  cases x with
  | none => exact ⟨_, _, (sound_at hh hw hs).torn⟩
  | some a => exact h a rfl s hs

theorem lands_at_assign {f : Raft → Raft} (hh : (f r).Holds W.log) (hw : Tracks W (f r)) :
    Lands W (At r) (assign f) :=
  triple_assign fun s hs =>
    ⟨_, _, sound_at (s := { s with raft := f s.raft }) hh hw ⟨congrArg f hs.1, hs.2⟩⟩

/-! ### The term test -/

theorem holds_observe (h : r.Holds l) (i : Int) (u : Nat) : (r.observe i u).Holds l := by
  unfold observe
  split
  · exact h.congr rfl rfl rfl rfl rfl rfl
  · exact h

theorem tracks_toFollower (h : Tracks W r) (hf : W.peers .follower r.peers) (i : Int)
    (u : Nat) : Tracks W (r.toFollower i u) :=
  ⟨h.id, h.commit, h.applied, h.included, hf⟩

theorem tracks_observe (h : Tracks W r) (hf : W.peers .follower r.peers) (i : Int)
    (u : Nat) : Tracks W (r.observe i u) := by
  unfold observe
  split
  · exact tracks_toFollower h hf i u
  · exact h

theorem tracks_truncateBefore (h : Tracks W r) (i : Int) : Tracks W (r.truncateBefore i) := by
  unfold truncateBefore
  split
  · exact h
  · exact ⟨h.id, h.commit, h.applied, h.included, h.peers⟩

theorem lands_becomeFollower (hh : r.Holds W.log) (hw : Tracks W r)
    (hf : W.peers .follower r.peers) (i : Int) (u : Nat) :
    Lands W (At r) (becomeFollower i u) :=
  lands_assign <| lands_at (hh.congr rfl rfl rfl rfl rfl rfl) (tracks_toFollower hw hf i u)
    (triple_persist fun _ h => h.write)

/-! ### The handlers -/

section Inputs

variable (hf : Fair W) (hh : W.before.Holds W.log)

include hf hh

theorem lands_electionTimeout : Lands W (At W.before) electionTimeout := by
  refine lands_fields (Triple.ite (fun _ => ?_) fun _ => lands_at_pure hh hf.start)
  refine lands_assign (lands_persist (lands_fields ?_))
  refine lands_at (hh.congr rfl rfl rfl rfl rfl rfl)
    ⟨hf.start.id, hf.start.commit, hf.start.applied, hf.start.included, hf.stand⟩ ?_
  exact Triple.forM (fun p => Triple.ite (fun _ => steady_pure)
    fun _ => steady_push (by exact trivial)) _

theorem lands_heartbeatTimeout : Lands W (At W.before) heartbeatTimeout := by
  refine lands_fields (Triple.ite (fun hr => ?_) fun _ => lands_at_pure hh hf.start)
  refine lands_at hh hf.start ?_
  rw [hr]
  exact steady_sendAppendEntries true

theorem lands_handleRequestVoteRequest (m : RaftRequestVoteRequestMessage) :
    Lands W (At W.before) (handleRequestVoteRequest m) := by
  have ho := holds_observe hh (-1) m.term
  have hw := tracks_observe hf.start hf.follow (-1) m.term
  refine lands_fields (Triple.ite (fun _ => lands_at_push hh hf.start trivial) fun _ => ?_)
  refine lands_observe (lands_fields ?_)
  refine Triple.ite (fun _ => lands_at_push ho hw trivial) fun _ => ?_
  refine Triple.ite (fun _ => lands_at_push ho hw trivial) fun _ => ?_
  refine lands_assign (lands_persist (lands_at_push ?_ ?_ ?_))
  · exact ho.congr rfl rfl rfl rfl rfl rfl
  · exact ⟨hw.id, hw.commit, hw.applied, hw.included, hw.peers⟩
  · exact trivial

theorem lands_handleRequestVoteResponse (m : RaftRequestVoteResponseMessage) :
    Lands W (At W.before) (handleRequestVoteResponse m) := by
  refine lands_fields (Triple.ite (fun _ => lands_at_pure hh hf.start) fun hr => ?_)
  refine Triple.ite (fun _ => lands_becomeFollower hh hf.start hf.follow _ _) fun _ => ?_
  refine Triple.ite (fun _ => lands_at_pure hh hf.start) fun _ => ?_
  refine Triple.ite (fun _ => ?_) fun _ => lands_at_pure hh hf.start
  have hcount : W.before.countVote.Holds W.log := hh.congr rfl rfl rfl rfl rfl rfl
  have hw : Tracks W W.before.countVote :=
    ⟨hf.start.id, hf.start.commit, hf.start.applied, hf.start.included, hf.start.peers⟩
  refine lands_assign (lands_fields (Triple.ite (fun _ => ?_) fun _ => lands_at_pure hcount hw))
  refine lands_assign (lands_persist (lands_assign ?_))
  refine lands_at (hh.congr rfl rfl rfl rfl rfl rfl)
    ⟨hf.start.id, hf.start.commit, hf.start.applied, hf.start.included, ?_⟩
    (steady_sendAppendEntries true)
  exact hf.lead (by tauto)

theorem lands_handleAppendEntriesResponse (m : RaftAppendEntriesResponseMessage)
    (hi : W.input = .message (.appendEntriesResponse m)) :
    Lands W (At W.before) (handleAppendEntriesResponse m) := by
  refine lands_fields (Triple.ite (fun _ => lands_at_pure hh hf.start) fun hr => ?_)
  have hlead : W.before.role = .leader := by tauto
  refine Triple.ite (fun _ => lands_becomeFollower hh hf.start hf.follow _ _) fun ht => ?_
  cases W.before.findPeer m.fromId with
  | none => exact lands_at_pure hh hf.start
  | some p =>
    refine Triple.ite (fun hs => ?_) fun _ =>
      Triple.ite (fun _ => ?_) fun _ => lands_at_pure hh hf.start
    · obtain ⟨hpeers, hsafe⟩ := hf.answer m hi hlead (Nat.le_of_not_gt ht) hs _ rfl
      have hh' : (W.before.setPeers (updatePeer m.fromId (·.setProgress m.lastLogIndex)
          W.before.peers)).Holds W.log := hh.congr rfl rfl rfl rfl rfl rfl
      have hw : Tracks W (W.before.setPeers (updatePeer m.fromId
          (·.setProgress m.lastLogIndex) W.before.peers)) :=
        ⟨hf.start.id, hf.start.commit, hf.start.applied, hf.start.included, hlead.symm ▸ hpeers⟩
      refine lands_assign (lands_fields ?_)
      refine lands_orThrow hh' hw fun u hu => ?_
      refine Triple.ite (fun hterm => ?_) fun _ => lands_at_pure hh' hw
      refine lands_assign ?_
      refine lands_at (hh'.congr rfl rfl rfl rfl rfl rfl)
        ⟨hw.id, hsafe (hterm ▸ hu), hw.applied, hw.included, hw.peers⟩ ?_
      exact Triple.bind steady_applyCommitLogs fun _ => steady_checkIfNeedSnapshot
    · exact lands_at_assign (hh.congr rfl rfl rfl rfl rfl rfl)
        ⟨hf.start.id, hf.start.commit, hf.start.applied, hf.start.included,
          hlead.symm ▸ hf.retry m hi hlead _⟩

theorem lands_handleInstallSnapshotRequest (m : RaftInstallSnapshotRequestMessage)
    (hi : W.input = .message (.installSnapshotRequest m)) :
    Lands W (At W.before) (handleInstallSnapshotRequest m) := by
  have ho := holds_observe hh m.fromId m.term
  have hw := tracks_observe hf.start hf.follow m.fromId m.term
  refine lands_fields (Triple.ite (fun _ => lands_at_push hh hf.start (.inl ⟨m, hi⟩)) fun hlt => ?_)
  refine lands_observe (lands_fields ?_)
  refine Triple.ite (fun _ => lands_at_push ho hw (.inl ⟨m, hi⟩)) fun _ => ?_
  refine lands_at_push ho hw ⟨m, hi, ?_, rfl, rfl⟩
  unfold observe
  split
  · exact Nat.le_refl _
  · omega

theorem lands_handleInstallSnapshotResponse (m : RaftInstallSnapshotResponseMessage)
    (hi : W.input = .message (.installSnapshotResponse m)) :
    Lands W (At W.before) (handleInstallSnapshotResponse m) := by
  refine lands_fields (Triple.ite (fun _ => lands_at_pure hh hf.start) fun hr => ?_)
  have hlead : W.before.role = .leader := by tauto
  refine Triple.ite (fun _ => lands_at_pure hh hf.start) fun hlt => ?_
  refine Triple.ite (fun _ => lands_becomeFollower hh hf.start hf.follow _ _) fun hgt => ?_
  cases W.before.findPeer m.fromId with
  | none => exact lands_at_pure hh hf.start
  | some p =>
    exact lands_at_assign (hh.congr rfl rfl rfl rfl rfl rfl)
      ⟨hf.start.id, hf.start.commit, hf.start.applied, hf.start.included,
        hlead.symm ▸ hf.installed m hi hlead (by omega)⟩

theorem lands_handleApplyCommitLogs (m : ApplyCommitLogsResponseMessage)
    (hi : W.input = .message (.applyCommitLogsResponse m)) :
    Lands W (At W.before) (handleApplyCommitLogs m) := by
  refine lands_assign (lands_assign (lands_at ?_ ?_ steady_checkIfNeedSnapshot))
  · exact hh.congr rfl rfl rfl rfl rfl rfl
  · exact ⟨hf.start.id, hf.start.commit, hf.applied m hi, hf.start.included, hf.start.peers⟩

theorem lands_handleGenerateSnapshot (m : GenerateSnapshotResponseMessage)
    (hi : W.input = .message (.generateSnapshotResponse m)) :
    Lands W (At W.before) (handleGenerateSnapshot m) := by
  refine Triple.ite (fun _ => lands_at_pure hh hf.start) fun hok => ?_
  obtain ⟨hs, hl⟩ := hf.generated m hi hok
  have hh' := (hh.truncateBefore (m.lastAppliedIndex + 1)).setLastIncluded hl
  have hw := tracks_truncateBefore hf.start (m.lastAppliedIndex + 1)
  refine lands_assign (lands_assign (lands_persist (lands_at_assign ?_ ?_)))
  · exact hh'.congr rfl rfl rfl rfl rfl rfl
  · exact ⟨hw.id, hw.commit, hw.applied, hs, hw.peers⟩

theorem lands_handleApplySnapshot (m : ApplySnapshotResponseMessage)
    (hi : W.input = .message (.applySnapshotResponse m)) :
    Lands W (At W.before) (handleApplySnapshot m) := by
  refine Triple.ite (fun _ => lands_at_push hh hf.start (.inr ⟨m, hi⟩)) fun hok => ?_
  obtain ⟨hs, hl⟩ := hf.received m hi hok
  have hw := tracks_truncateBefore hf.start m.lastIncludedIndex
  refine lands_assign (lands_fields (lands_assign (lands_at_push ?_ ?_ ?_)))
  · exact (hh.truncateBefore m.lastIncludedIndex).setLastIncluded hl
  · exact ⟨hw.id, hw.commit, hw.applied, hs, hw.peers⟩
  · exact .inr ⟨m, hi⟩

theorem lands_handleShutdown : Lands W (At W.before) handleShutdown := by
  refine lands_assign (lands_at_push ?_ ?_ ?_)
  · exact hh.congr rfl rfl rfl rfl rfl rfl
  · exact ⟨hf.start.id, hf.start.commit, hf.start.applied, hf.start.included, hf.start.peers⟩
  · exact trivial

end Inputs

/-! ### The two handlers that write to the log -/

theorem logAfter_of_fresh_nil {i : Input} (h : r.fresh i = []) : r.logAfter l i = l := by
  rw [logAfter, h, List.map_nil, List.append_nil]

theorem logMatch_observe (i : Int) (u : Nat) : (r.observe i u).logMatch = r.logMatch := by
  unfold observe
  split <;> rfl

/-- The node after step 3. -/
def sync (es : List RaftLogEntry) (r : Raft) : Raft :=
  if es.isEmpty then r else (r.appendLogs es).refreshLast

theorem holds_sync (h : r.Holds l) (es : List RaftLogEntry) :
    (r.sync es).Holds (l ++ es.map RaftLogEntry.core) := by
  unfold sync
  cases es with
  | nil =>
    rw [List.map_nil, List.append_nil]
    exact h
  | cons e es => exact h.append (List.cons_ne_nil e es)

theorem tracks_sync (h : Tracks W r) (es : List RaftLogEntry) : Tracks W (r.sync es) := by
  unfold sync
  split
  · exact h
  · exact ⟨h.id, h.commit, h.applied, h.included, h.peers⟩

theorem lands_syncLogs {es : List RaftLogEntry} {k : Unit → RaftM Unit}
    (h : Lands W (At (r.sync es)) (k ())) : Lands W (At r) (syncLogs es >>= k) := by
  refine Triple.bind (Q := fun _ => At (r.sync es)) ?_ fun _ => h
  rintro ⟨r', fx⟩ ⟨rfl, hfx⟩
  cases es with
  | nil => exact ⟨rfl, hfx⟩
  | cons e es =>
    refine ⟨rfl, ?_⟩
    show pushedOf (fx ++ [.persist _]) = []
    rw [pushedOf_append, show pushedOf fx = [] from hfx]
    rfl

theorem lands_orThrow_some {α : Type} {x : Option α} {a : α} {k : α → RaftM Unit}
    (hx : x = some a) (h : Lands W P (k a)) : Lands W P (orThrow x >>= k) := by
  intro s hs
  rw [hx, bind_run, orThrow_some_run]
  exact h s hs

theorem tracks_truncateAfter (h : Tracks W r) (i : Int) : Tracks W (r.truncateAfter i) := by
  unfold truncateAfter
  split
  · exact h
  · exact ⟨h.id, h.commit, h.applied, h.included, h.peers⟩

theorem lands_rejectEntries {i : Int} {q : RaftAppendEntriesRequestMessage}
    {m : RaftAppendEntriesResponseMessage}
    (hi : W.input = .message (.appendEntriesRequest q)) (hh : r.Holds W.log)
    (hw : Tracks W r) (hm : m.success = false)
    (hout : r.lastIncludedIndex = i → i < r.baseIndex ∨ i > r.lastLogIndex) :
    Lands W (At r) (rejectEntries i m) := by
  rintro ⟨r', fx⟩ ⟨rfl, hfx⟩
  have hspeaks : ∀ x ∈ pushedOf (fx ++ [.push (.appendEntriesResponse m)]),
      Speaks W (r'.truncateAfter i).term (r'.truncateAfter i).role x := by
    intro x hx
    rw [pushedOf_append, show pushedOf fx = [] from hfx] at hx
    rw [List.mem_singleton.mp hx]
    intro hs
    exact nomatch hm.symm.trans hs
  have hw' := tracks_truncateAfter hw i
  simp only [rejectEntries, bind_run, assign_run, push_run, fields_run]
  cases hget : (r'.truncateAfter i).getTermAt i with
  | none =>
    exact ⟨_, _, hh.truncateAfter_part i, fun hne => absurd hi (hne q), rfl, rfl, hw', hspeaks⟩
  | some u =>
    refine ⟨_, _, ?_, rfl, rfl, hw', hspeaks⟩
    by_cases hat : r'.lastIncludedIndex = i
    · show (r'.truncateAfter i).Holds W.log
      unfold truncateAfter
      rw [if_pos (hout hat)]
      exact hh
    · rcases hh.truncateAfter hat with h | h
      · exact h
      · rw [h] at hget
        cases hget

theorem sound_followCommit {c : Int} (hh : r.Holds W.log) (hw : Tracks W r)
    (hc : c > r.lastCommitIndex → W.safe (min c W.log.length)) :
    Triple (At r) (followCommit c) (fun _ => Sound W r.term r.role)
      (Torn W r.term r.role) := by
  refine triple_fields fun r' => ?_
  refine Triple.ite (fun hgt => ?_) fun _ => Triple.pure fun s hs => sound_at hh hw hs.1
  refine Triple.bind (Q := fun _ => Sound W r.term r.role) ?_ fun _ => steady_applyCommitLogs
  refine triple_assign fun s hs => ?_
  obtain ⟨hat, rfl⟩ := hs
  refine (sound_at hh hw hat).assign ((hat.1 ▸ hh).congr rfl rfl rfl rfl rfl rfl) rfl rfl ?_
  have hsafe := hc (hat.1 ▸ hgt)
  rw [← hh.lastIndex, ← hat.1] at hsafe
  have hw' := hat.1.symm ▸ hw
  exact ⟨hw'.id, hsafe, hw'.applied, hw'.included, hw'.peers⟩

section Writers

variable (hf : Fair W) (hh : W.before.Holds l)

include hf hh

theorem lands_handleKVOperationRequest (m : KVOperationRequestMessage)
    (hl : W.log = W.before.logAfter l (.message (.kvOperationRequest m))) :
    Lands W (At W.before) (handleKVOperationRequest m) := by
  refine lands_fields (Triple.ite (fun hr => ?_) fun hr => ?_)
  · have hlog : W.log = l := hl.trans (logAfter_of_fresh_nil (by rw [fresh, if_neg hr]))
    exact lands_at_push (hlog ▸ hh) hf.start trivial
  have hlead : W.before.role = .leader := by tauto
  cases hc : commandText m.opType m.key m.value with
  | none =>
    have hlog : W.log = l := by
      refine hl.trans (logAfter_of_fresh_nil ?_)
      rw [fresh, if_pos hlead, clientEntry, hc]
      rfl
    exact lands_at_push (hlog ▸ hh) hf.start trivial
  | some command =>
    have hlog := hl
    rw [logAfter, fresh, if_pos hlead, clientEntry, hc] at hlog
    refine lands_assign (lands_persist (lands_assign (lands_at ?_ ?_ ?_)))
    · rw [hlog]
      exact hh.write rfl
    · exact ⟨hf.start.id, hf.start.commit, hf.start.applied, hf.start.included, hf.start.peers⟩
    · rw [show (advanceLast (appendLogs _ W.before)).role = .leader from hlead]
      exact steady_sendAppendEntries false

theorem lands_handleAppendEntriesRequest (m : RaftAppendEntriesRequestMessage)
    (hi : W.input = .message (.appendEntriesRequest m))
    (hl : W.log = W.before.logAfter l (.message (.appendEntriesRequest m))) :
    Lands W (At W.before) (handleAppendEntriesRequest m) := by
  have hskip : ¬ W.before.Accepts m → W.log = l := fun hna =>
    hl.trans (logAfter_of_fresh_nil (by rw [fresh, if_neg hna]))
  refine lands_fields (Triple.ite (fun hlt => ?_) fun hlt => ?_)
  · have hlog := hskip fun ha => Nat.not_lt.mpr ha.1 hlt
    exact lands_at_push (hlog ▸ hh) hf.start nofun
  refine lands_observe (lands_fields ?_)
  have ho := holds_observe hh m.fromId m.term
  have hw := tracks_observe hf.start hf.follow m.fromId m.term
  have hterm : W.before.term ≤ m.term := Nat.le_of_not_lt hlt
  obtain ⟨b, hb⟩ := hh.logMatch m.prevLogIndex m.prevLogTerm
  refine lands_orThrow_some ((congrFun (congrFun (logMatch_observe _ _) _) _).trans hb) ?_
  cases b with
  | false =>
    have hlog := hskip fun ha => by
      rw [ha.2] at hb
      cases hb
    refine Triple.ite (fun hc => nomatch hc) fun _ => ?_
    refine lands_rejectEntries hi (hlog ▸ ho) hw rfl ?_
    have hmis := hf.mismatch m hi hterm hb
    unfold observe
    split <;> exact hmis
  | true =>
    have hacc : W.before.Accepts m := ⟨hterm, hb⟩
    refine Triple.ite (fun _ => ?_) fun hc => absurd rfl hc
    refine lands_syncLogs ?_
    have hs : ((W.before.observe m.fromId m.term).sync m.entries).Holds W.log := by
      rw [hl, logAfter, fresh, if_pos hacc]
      exact holds_sync ho m.entries
    have hws := tracks_sync hw m.entries
    have hcommit : ((W.before.observe m.fromId m.term).sync m.entries).lastCommitIndex =
        W.before.lastCommitIndex := by
      unfold sync observe
      split <;> split <;> rfl
    have hst : ((W.before.observe m.fromId m.term).sync m.entries).term =
        (W.before.observe m.fromId m.term).term := by
      unfold sync
      split <;> rfl
    refine Triple.bind ((sound_followCommit hs hws fun hgt => ?_).conseq (fun _ h => h)
      (fun _ _ h => h) fun _ h => ⟨_, _, h⟩) fun _ => ?_
    · exact hf.commit m hi hacc (hcommit ▸ hgt)
    refine triple_fields fun r' => triple_push fun s ⟨h, hr⟩ => ⟨_, _, h.emit fun _ => ?_⟩
    exact ⟨hst.symm, hr ▸ h.holds.lastIndex, m, hi, hacc⟩

end Writers

end Handlers

/-! ## The inversion lemma -/

/-- What a step of the core leaves behind. -/
structure Ends (W : Watch) (x : Reaction) : Prop where
  part : x.raft.Part W.log
  whole : (∀ m, W.input ≠ .message (.appendEntriesRequest m)) → x.raft.Holds W.log
  holds : x.thrown = false → x.raft.Holds W.log
  tracks : Tracks W x.raft
  speaks : ∀ m ∈ x.pushed, Speaks W x.raft.term x.raft.role m

theorem ends_of_lands {c : RaftM Unit} (h : Lands W (At W.before) c) :
    Ends W (runCommand c W.before) := by
  have hr := h { raft := W.before, effects := [] } ⟨rfl, rfl⟩
  unfold runCommand
  revert hr
  cases c.run { raft := W.before, effects := [] } with
  | ok a s =>
    rintro ⟨t, ρ, h⟩
    refine ⟨h.holds.part, fun _ => h.holds, fun _ => h.holds, h.tracks, fun m hm => ?_⟩
    exact h.term ▸ h.role ▸ h.speaks m hm
  | error e s =>
    rintro ⟨t, ρ, h⟩
    refine ⟨h.part, h.whole, nofun, h.tracks, fun m hm => ?_⟩
    exact h.term ▸ h.role ▸ h.speaks m hm

theorem react_log {l : CoreLog} (hf : Fair W) (hh : W.before.Holds l)
    (hl : W.log = W.before.logAfter l W.input) : Ends W (W.before.react W.input) := by
  refine ends_of_lands ?_
  have hsame : W.before.fresh W.input = [] → W.before.Holds W.log := fun h => by
    rw [hl, logAfter_of_fresh_nil h]
    exact hh
  cases hi : W.input with
  | electionTimeout => exact lands_electionTimeout hf (hsame (by rw [hi]; rfl))
  | heartbeatTimeout => exact lands_heartbeatTimeout hf (hsame (by rw [hi]; rfl))
  | message m =>
    cases m with
    | requestVoteRequest m =>
      exact lands_handleRequestVoteRequest hf (hsame (by rw [hi]; rfl)) m
    | requestVoteResponse m =>
      exact lands_handleRequestVoteResponse hf (hsame (by rw [hi]; rfl)) m
    | appendEntriesRequest m =>
      exact lands_handleAppendEntriesRequest hf hh m hi (hi ▸ hl)
    | appendEntriesResponse m =>
      exact lands_handleAppendEntriesResponse hf (hsame (by rw [hi]; rfl)) m hi
    | installSnapshotRequest m =>
      exact lands_handleInstallSnapshotRequest hf (hsame (by rw [hi]; rfl)) m hi
    | installSnapshotResponse m =>
      exact lands_handleInstallSnapshotResponse hf (hsame (by rw [hi]; rfl)) m hi
    | kvOperationRequest m => exact lands_handleKVOperationRequest hf hh m (hi ▸ hl)
    | applyCommitLogsResponse m =>
      exact lands_handleApplyCommitLogs hf (hsame (by rw [hi]; rfl)) m hi
    | generateSnapshotResponse m =>
      exact lands_handleGenerateSnapshot hf (hsame (by rw [hi]; rfl)) m hi
    | applySnapshotResponse m =>
      exact lands_handleApplySnapshot hf (hsame (by rw [hi]; rfl)) m hi
    | shutdown => exact lands_handleShutdown hf (hsame (by rw [hi]; rfl))
    | _ => exact lands_at_pure (hsame (by rw [hi]; rfl)) hf.start

end Raft

end WWRaftKV
