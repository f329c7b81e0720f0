/-
The labels of snapshots.

The core says which index and term a snapshot is for, and the clerk reads the data later,
from its store or from its file.  Each of them has seen what the other one has not.  The
labels that are under way, from the core's snapshot point through the answers in its
channel to the file, never go back, and a message that names one finds the store or the
file as it says.
-/
import WWRaftKV.Node.Contents

namespace WWRaftKV

open Raft (applyWindow)

/-! ## Labels in messages -/

/-- The label under which the clerk is to take or to install a snapshot. -/
def RaftMessage.takes : RaftMessage → Option (Int × Nat)
  | .generateSnapshotRequest m => some (m.lastAppliedIndex, m.lastAppliedTerm)
  | .applySnapshotRequest m => some (m.lastIncludedIndex, m.lastIncludedTerm)
  | _ => none

/-- The label of a snapshot to be taken of the store. -/
def RaftMessage.asks : RaftMessage → Option (Int × Nat)
  | .generateSnapshotRequest m => some (m.lastAppliedIndex, m.lastAppliedTerm)
  | _ => none

/-- The label under which the file is to be sent. -/
def RaftMessage.ships : RaftMessage → Option (Int × Nat)
  | .installSnapshotRequest m => some (m.lastIncludedIndex, m.lastIncludedTerm)
  | _ => none

/-! ## Conditions on steps -/

namespace Raft

/-- A leader that confirms entries asks for a snapshot only when the clerk has nothing to
apply. -/
def AsksAtRest (r : Raft) : Input → Prop
  | .message (.appendEntriesResponse m) => r.Confirms m → r.isSnapshoting = false →
    r.lastAppliedIndex - r.lastIncludedIndex ≥ snapshotThreshold →
      r.isApplying = false ∧ (r.progress m).majorityMatch ≤ r.lastAppliedIndex
  | _ => True

instance (r : Raft) (i : Input) : Decidable (r.AsksAtRest i) := by
  induction i using Input.casesOn with
  | message m =>
    induction m using RaftMessage.casesOn <;> unfold AsksAtRest <;> infer_instance
  | _ => exact .isTrue trivial

/-- Some peer is too far behind the vector. -/
def Ships (r : Raft) (i : Input) : Prop :=
  ∃ q ∈ r.sendsTo i, q.id ≠ r.id ∧ q.nextIndex < r.baseIndex

instance (r : Raft) (i : Input) : Decidable (r.Ships i) := by
  unfold Ships
  infer_instance

end Raft

/-- A snapshot is sent only when no other one is under way. -/
def Process.ShipsCurrent (p : Process) (i : Input) : Prop := p.raft.Ships i →
  (∀ x ∈ p.inner, ∀ l ∈ x.msg.takes, l = p.raft.point) ∧
    ∀ x ∈ p.outter, ∀ l ∈ x.msg.given, l = p.raft.point

instance (p : Process) (i : Input) : Decidable (p.ShipsCurrent i) := by
  unfold Process.ShipsCurrent
  infer_instance

namespace RaftClerk

section Conditions

variable (codec : SnapshotCodec) (L : LogOf) (a : Int) (c : RaftClerk)

/-- What the clerk is given belongs to the log `L`: entries, and a snapshot of a peer. -/
def FollowsMsg : RaftMessage → Prop
  | .applyCommitLogsRequest m => ∀ x ∈ m.indexed, x.2.core = L x.1
  | .applySnapshotRequest m => Labelled.Exact codec L
      { index := m.lastIncludedIndex, term := m.lastIncludedTerm, data := m.snapshot }
  | _ => True

def Follows : ClerkEvent → Prop
  | .clerk _ _ => ∀ x ∈ c.process.inner.head?, FollowsMsg codec L x.msg
  | _ => True

/-- A read is for a key that is there, and a snapshot that is installed ends at the entry
that has been applied last. -/
def ServesMsg (opens : Bool) : RaftMessage → Prop
  | .kvOperationResponse m => m.success = true → m.opType = .get →
    c.kvStore.contains m.key = some true
  | .applySnapshotRequest m => opens = true → m.lastIncludedIndex = a + c.applied.length
  | _ => True

def Serves : ClerkEvent → Prop
  | .clerk opens _ => ∀ x ∈ c.process.inner.head?, c.ServesMsg a opens x.msg
  | _ => True

/-- The steps that keep the labels. -/
structure KeepsLabels (e : ClerkEvent) : Prop where
  follows : c.Follows codec L e
  serves : c.Serves a e
  forward : c.process.Obeys CommitsForward (e.event true)
  mismatch : c.process.Obeys Raft.MismatchOutside (e.event true)
  rest : c.process.Obeys Raft.AsksAtRest (e.event true)
  ship : ∀ i ∈ c.process.turn (e.event true), c.process.ShipsCurrent i

end Conditions

section Decide

variable (codec : SnapshotCodec) (L : LogOf) (a : Int) (c : RaftClerk) (e : ClerkEvent)

instance (x : Labelled) : Decidable (x.Exact codec L) :=
  decidable_of_iff ((∃ ps ∈ codec.parse x.data, SortedMap.insertAll ∅ ps = mapAt L x.index) ∧
    x.term = (L x.index).term) ⟨fun h => ⟨h.1, h.2⟩, fun h => ⟨h.data, h.term⟩⟩

instance (m : RaftMessage) : Decidable (FollowsMsg codec L m) := by
  induction m using RaftMessage.casesOn <;> unfold FollowsMsg <;> infer_instance

instance : Decidable (c.Follows codec L e) := by
  induction e using ClerkEvent.casesOn <;> unfold Follows <;> infer_instance

instance (opens : Bool) (m : RaftMessage) : Decidable (c.ServesMsg a opens m) := by
  induction m using RaftMessage.casesOn <;> unfold ServesMsg <;> infer_instance

instance : Decidable (c.Serves a e) := by
  induction e using ClerkEvent.casesOn <;> unfold Serves <;> infer_instance

instance : Decidable (c.KeepsLabels codec L a e) :=
  decidable_of_iff (c.Follows codec L e ∧ c.Serves a e ∧
      c.process.Obeys CommitsForward (e.event true) ∧
      c.process.Obeys Raft.MismatchOutside (e.event true) ∧
      c.process.Obeys Raft.AsksAtRest (e.event true) ∧
      ∀ i ∈ c.process.turn (e.event true), c.process.ShipsCurrent i)
    ⟨fun h => ⟨h.1, h.2.1, h.2.2.1, h.2.2.2.1, h.2.2.2.2.1, h.2.2.2.2.2⟩,
      fun h => ⟨h.follows, h.serves, h.forward, h.mismatch, h.rest, h.ship⟩⟩

end Decide

/-! ## The property -/

/-- Every snapshot that has been written or sent is the store after the entries up to its
index, and its term is that of the last one. -/
structure LabelsExact (codec : SnapshotCodec) (L : LogOf) (c : RaftClerk) : Prop where
  written : ∀ x ∈ c.written, x.Exact codec L
  shipped : ∀ x ∈ c.shipped, x.Exact codec L

/-- The two files on the disk belong together. -/
def Boots (codec : SnapshotCodec) (L : LogOf) (file : Option RaftPersistData)
    (snapshotFile : Option Str) : Prop :=
  match file with
  | none => snapshotFile = none
  | some d => 0 ≤ d.lastIncludedIndex ∧ match snapshotFile with
    | none => d.lastIncludedIndex = 0
    | some data => Labelled.Exact codec L
        { index := d.lastIncludedIndex, term := d.lastIncludedTerm, data := data }

end RaftClerk

end WWRaftKV
