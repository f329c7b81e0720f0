/-
A node comes back after a crash.

Both files are written in place.  A crash leaves some prefix of the new text in the file that
is being written, and it may come between the clerk's write of a snapshot and the core's
write of the index and the term of it.  The constructor reads what it finds, and it logs what
it cannot read.
-/
import WWRaftKV.Node.Saved
import WWRaftKV.Node.Snapshots

namespace WWRaftKV

open Raft (applyWindow applyWindow_getElem? mapM_some mapM_eq_some)
open Records

/-- The index and the term of the snapshot that the data goes on from. -/
def RaftPersistData.point (d : RaftPersistData) : Int × Nat :=
  (d.lastIncludedIndex, d.lastIncludedTerm)

/-- The text consists of whole fields. -/
def SnapshotData.Whole (text : Str) : Prop :=
  (Fields.readFields text.length text).isSome = true

/-- The two files of a node. -/
structure Disk where
  persist : Option Str
  snapshot : Option Str
deriving DecidableEq, Repr

namespace Disk

/-- What `loadPersist` finds. -/
def file (d : Disk) : Option RaftPersistData := d.persist.bind PersistData.parse

/-- A file that the constructor reads does not parse. -/
def Unreadable (d : Disk) : Prop :=
  (∃ text ∈ d.persist, PersistData.parse text = none) ∨
    (d.file.isSome = true ∧ ∃ text ∈ d.snapshot, SnapshotData.parse text = none)

end Disk

/-- When a process ends.  The core may be in the middle of an event: at which of its writes,
and how many bytes have been written.  The clerk may have written so many bytes of the
snapshot that it is writing. -/
structure Crash where
  write : Option (ClerkEvent × Nat × Nat)
  snapshot : Option Nat

namespace RaftClerk

/-! ## What a crash leaves -/

section Crash

variable (c : RaftClerk)

/-- What the core writes into its file in this event. -/
def persists (e : ClerkEvent) : List RaftPersistData :=
  match c.process.turn (e.event true) with
  | some i => (c.process.raft.react i).persisted
  | none => []

/-- The data in the file after the first `n` of these writes. -/
def fileAfter (e : ClerkEvent) (n : Nat) : Option RaftPersistData :=
  ((c.persists e).take n).getLast?.or c.process.file

/-- What the clerk writes into the snapshot file for the next message. -/
def snapshotWrite : Option Str :=
  c.process.inner.head?.bind fun x => match x.msg with
    | .generateSnapshotRequest _ => (KVStore.pairs c.kvStore).map SnapshotData.serialize
    | .applySnapshotRequest m => some m.snapshot
    | _ => none

def persistText (x : Crash) : Option Str :=
  match x.write with
  | none => c.process.file.map PersistData.serialize
  | some (e, n, k) => match (c.persists e)[n]? with
    | some d => some ((PersistData.serialize d).take k)
    | none => (c.fileAfter e n).map PersistData.serialize

def snapshotText (x : Crash) : Option Str :=
  match x.snapshot, c.snapshotWrite with
  | some k, some text => some (text.take k)
  | _, _ => c.snapshotFile

def leaves (x : Crash) : Disk where
  persist := c.persistText x
  snapshot := c.snapshotText x

/-- The data in the file before the write in which the process ends. -/
def before (x : Crash) : Option RaftPersistData :=
  match x.write with
  | none => c.process.file
  | some (e, n, _) => c.fileAfter e n

/-- The data in the file had the write been finished. -/
def after (x : Crash) : Option RaftPersistData :=
  match x.write with
  | none => c.process.file
  | some (e, n, _) => c.fileAfter e (n + 1)

end Crash

/-- The errors that `loadPersist` and `_InstallSnapshotFromPersist` log, with one text for
both files.  `update` never fails, so the third text of the latter is not logged. -/
inductive LoggedError
  /-- "open raftnode persist file failed" -/
  | openFailed
  /-- "persist data deserialization failed" -/
  | deserializationFailed
deriving DecidableEq, Repr

/-- A file is opened and parsed: what is logged, and the data. -/
def readFile {α : Type} (parse : Str → Option α) : Option Str → List LoggedError × Option α
  | some text => match parse text with
    | some data => ([], some data)
    | none => ([.deserializationFailed], none)
  | none => ([.openFailed], none)

/-- `loadPersist`, as far as it reads the file. -/
def readPersist : Option Str → List LoggedError × Option RaftPersistData :=
  readFile PersistData.parse

/-- `_InstallSnapshotFromPersist`, with what it logs. -/
def readSnapshot (draws : List (List Bool)) (text : Option Str) :
    List LoggedError × Option StrStore :=
  match readFile SnapshotData.parse text with
  | (errors, some ps) => (errors, installEntries ps draws newStore)
  | (errors, none) => (errors, some newStore)

/-- What the constructor leaves: the errors in the log, and the clerk. -/
structure Boot where
  errors : List LoggedError
  clerk : Option RaftClerk

/-- The constructor, with the files that it finds. -/
def boot (draws : List (List Bool)) (id : Int) (ids : List Int) (addresses : List Str)
    (d : Disk) : Boot :=
  let (errors, file) := readPersist d.persist
  let (more, store) := if file.isSome then readSnapshot draws d.snapshot else ([], some newStore)
  { errors := errors ++ more
    clerk := store.map (make id ids addresses file d.snapshot) }

/-- The constructor reports a failure: a file has been there and could not be read. -/
def Boot.Reports (b : Boot) : Prop := .deserializationFailed ∈ b.errors

instance (b : Boot) : Decidable b.Reports :=
  inferInstanceAs (Decidable (.deserializationFailed ∈ b.errors))

/-- The entries up to index `k` can be applied again, and then the store is the one after the
entries `1..k`. -/
def Replays (L : LogOf) (c : RaftClerk) (k : Int) : Prop :=
  ∃ es, (applyWindow c.process.raft.lastAppliedIndex k).mapM c.process.raft.getLogAt = some es ∧
    ∀ drawn : List (RaftLogEntry × List Bool), drawn.map (·.1) = es →
      ∃ codes s, applyCommitLogs c.kvStore drawn = some (codes, s) ∧ s.Represents (mapAt L k)

/-- The node is back as it was, with the entries up to `top` that had been applied. -/
structure Recovered (L : LogOf) (id : Int) (ids : List Int) (top : Int) (c : RaftClerk)
    (x : Crash) (c' : RaftClerk) : Prop where
  state : c'.process.raft = restart id ids (c.before x) ∨
    c'.process.raft = restart id ids (c.after x)
  durable : x.write = none → c'.process.raft.Restores c.process.raft
  replays : ∀ k, c'.process.raft.lastIncludedIndex ≤ k → k ≤ top → Replays L c' k

/-- The constructor reports a failure, or the node is back. -/
def Recovers (L : LogOf) (id : Int) (ids : List Int) (addresses : List Str) (top : Int)
    (c : RaftClerk) (x : Crash) : Prop :=
  ∀ draws, (boot draws id ids addresses (c.leaves x)).Reports ∨
    ∃ c' ∈ (boot draws id ids addresses (c.leaves x)).clerk, Recovered L id ids top c x c'

/-! ## What the constructor makes of the files -/

section Boot

variable {α : Type} {draws : List (List Bool)} {id : Int} {ids : List Int}
  {addresses : List Str} {d : Disk}

theorem readFile_snd (parse : Str → Option α) (text : Option Str) :
    (readFile parse text).2 = text.bind parse := by
  cases text with
  | none => rfl
  | some t => cases h : parse t <;> simp [readFile, h]

theorem mem_readFile {parse : Str → Option α} {text : Option Str} :
    .deserializationFailed ∈ (readFile parse text).1 ↔ ∃ t ∈ text, parse t = none := by
  cases text with
  | none => simp [readFile]
  | some t => cases h : parse t <;> simp [readFile, h]

theorem file_readPersist : (readPersist d.persist).2 = d.file :=
  readFile_snd PersistData.parse d.persist

theorem readSnapshot_fst (text : Option Str) :
    (readSnapshot draws text).1 = (readFile SnapshotData.parse text).1 := by
  unfold readSnapshot
  split <;> next h => rw [h]

theorem readSnapshot_snd (text : Option Str) :
    (readSnapshot draws text).2 = installSnapshotFromPersist SnapshotData.codec draws text := by
  cases text with
  | none => rfl
  | some t =>
    cases h : SnapshotData.parse t <;>
      simp [readSnapshot, readFile, installSnapshotFromPersist, SnapshotData.codec, h]

/-- The constructor goes on with what it has parsed. -/
theorem clerk_boot : (boot draws id ids addresses d).clerk =
    init SnapshotData.codec draws id ids addresses d.file d.snapshot := by
  unfold boot init
  simp only [file_readPersist]
  split
  · rw [readSnapshot_snd]
  · rfl

/-- It reports a failure exactly when a file that it reads does not parse. -/
theorem reports_boot : (boot draws id ids addresses d).Reports ↔ d.Unreadable := by
  unfold Boot.Reports boot Disk.Unreadable
  simp only [file_readPersist, List.mem_append]
  rw [readPersist, mem_readFile]
  apply or_congr_right
  split
  · next hsome => simp only [readSnapshot_fst, mem_readFile, hsome, true_and]
  · next hnone => simp [hnone]

end Boot

/-! ## Where a crash does no harm -/

/-- The persist file holds this data: no write has been cut off, or what is left of it is the
whole text of the write before. -/
inductive Finds (c : RaftClerk) (x : Crash) : Option RaftPersistData → Prop
  | rests (h : x.write = none) : Finds c x c.process.file
  | ended {e : ClerkEvent} {n k : Nat} (h : x.write = some (e, n, k))
      (hn : (c.persists e)[n]? = none) : Finds c x (c.fileAfter e n)
  | done {e : ClerkEvent} {n k : Nat} {d : RaftPersistData} (h : x.write = some (e, n, k))
      (hd : (c.persists e)[n]? = some d)
      (hk : (PersistData.serialize d).take k = PersistData.serialize d) : Finds c x (some d)
  | undone {e : ClerkEvent} {n k : Nat} {d d' : RaftPersistData} (h : x.write = some (e, n, k))
      (hd : (c.persists e)[n]? = some d) (hold : c.fileAfter e n = some d')
      (hk : (PersistData.serialize d).take k = PersistData.serialize d') : Finds c x (some d')

/-- The crash comes where it does no harm. -/
inductive Safe (c : RaftClerk) (x : Crash) : Prop
  /-- The persist file ends within a field. -/
  | field {e : ClerkEvent} {n k : Nat} {d : RaftPersistData} (h : x.write = some (e, n, k))
      (hd : (c.persists e)[n]? = some d)
      (hcut : ¬ Field.format.Between (PersistData.fields d) ((PersistData.serialize d).take k))
  /-- The snapshot file ends within a field. -/
  | entry {d : RaftPersistData} (hfile : Finds c x (some d))
      (hcut : ∃ text ∈ c.snapshotText x, ¬ SnapshotData.Whole text)
  /-- No file has been cut off, and the snapshot is the one that the persist file goes on
  from. -/
  | whole {file : Option RaftPersistData} (hfile : Finds c x file)
      (hs : c.snapshotText x = c.snapshotFile)
      (hlabel : ∀ d ∈ file, c.process.fileLabel = d.point)

/-- The steps that keep the files. -/
structure KeepsDisk (L : LogOf) (a : Int) (c : RaftClerk) (e : ClerkEvent) : Prop
    extends c.KeepsLabels SnapshotData.codec L a e where
  file : c.process.Obeys KeepsFile (e.event true)

instance (L : LogOf) (a : Int) (c : RaftClerk) (e : ClerkEvent) :
    Decidable (KeepsDisk L a c e) :=
  decidable_of_iff (c.KeepsLabels SnapshotData.codec L a e ∧
      c.process.Obeys KeepsFile (e.event true))
    ⟨fun h => ⟨h.1, h.2⟩, fun h => ⟨h.toKeepsLabels, h.file⟩⟩

/-- The states of a node over all its lives.  A life starts behind index `a`, and entries up
to index `top` have been applied in the lives before. -/
inductive Lives (L : LogOf) (id : Int) (ids : List Int) (addresses : List Str) :
    Int → Int → RaftClerk → Prop
  | first {draws : List (List Bool)} {c : RaftClerk}
      (hr : Reaches (KeepsDisk L 0) SnapshotData.codec draws id ids addresses none none c) :
      Lives L id ids addresses 0 0 c
  | again {a top : Int} {q c : RaftClerk} {x : Crash} {draws : List (List Bool)}
      (hq : Lives L id ids addresses a top q) (hlive : q.alive = true ∧ q.process.alive = true)
      (hstep : ∀ e n k, x.write = some (e, n, k) → KeepsDisk L a q e) (hsafe : q.Safe x)
      (hread : ¬ (boot draws id ids addresses (q.leaves x)).Reports)
      (hpair : (q.leaves x).file = none → (q.leaves x).snapshot = none)
      (hr : Reaches (KeepsDisk L (restart id ids (q.leaves x).file).lastIncludedIndex)
        SnapshotData.codec draws id ids addresses (q.leaves x).file (q.leaves x).snapshot c) :
      Lives L id ids addresses (restart id ids (q.leaves x).file).lastIncludedIndex
        (max top (a + q.applied.length)) c

/-! ## The store and the log of a node that is back -/

section Replay

variable {L : LogOf} {top k : Int} {r : Raft} {s : StrStore}

theorem mapAt_append {i : Int} (hi : 0 ≤ i) (hk : i ≤ k) :
    (specCommands (mapAt L i) ((applyWindow i k).map fun j => (L j).command)).2 = mapAt L k := by
  unfold mapAt
  rw [← applyWindow_append hi hk, List.map_append, specCommands_append]

/-- The entries that are applied again are those of the log. -/
theorem window_entries (hb : r.Booked) (hd : r.persistData.Holds L top) (htop : k ≤ top) :
    ∃ es, (applyWindow r.lastIncludedIndex k).mapM r.getLogAt = some es ∧
      es.map (·.command) = (applyWindow r.lastIncludedIndex k).map fun j => (L j).command := by
  have hentry : ∀ j ∈ applyWindow r.lastIncludedIndex k,
      ∃ e, r.getLogAt j = some e ∧ e.core = L j := by
    intro j hj
    obtain ⟨i, hi⟩ := List.getElem?_of_mem hj
    obtain ⟨rfl, hlt⟩ := applyWindow_getElem? hi
    exact Option.map_eq_some_iff.mp (hb.getLogAt_of_holds hd (by omega) (by omega))
  obtain ⟨es, hes⟩ := mapM_eq_some fun j hj => (hentry j hj).imp fun _ h => h.1
  refine ⟨es, hes, ?_⟩
  obtain ⟨hlen, hget⟩ := mapM_some hes
  apply List.ext_getElem?
  intro i
  rw [List.getElem?_map, List.getElem?_map]
  cases hi : es[i]? with
  | none =>
    rw [List.getElem?_eq_none (hlen ▸ List.getElem?_eq_none_iff.mp hi)]
    rfl
  | some e =>
    obtain ⟨j, hj, he⟩ := hget i e hi
    obtain ⟨e', he', hcore⟩ := hentry j (List.mem_of_getElem? hj)
    obtain rfl := Option.some.inj (he'.symm.trans he)
    rw [hj]
    exact congrArg some (congrArg RaftPersistLogEntry.command hcore)

/-- A node whose store is the one of its snapshot point can apply the entries behind it. -/
theorem replays_of_holds {c : RaftClerk} (hb : c.process.raft.Booked)
    (h0 : 0 ≤ c.process.raft.lastIncludedIndex)
    (happlied : c.process.raft.lastAppliedIndex = c.process.raft.lastIncludedIndex)
    (hd : c.process.raft.persistData.Holds L top)
    (hs : c.kvStore.Represents (mapAt L c.process.raft.lastIncludedIndex))
    (hk : c.process.raft.lastIncludedIndex ≤ k) (htop : k ≤ top) : Replays L c k := by
  obtain ⟨es, hes, hcommands⟩ := window_entries hb hd htop
  refine ⟨es, happlied ▸ hes, ?_⟩
  rintro drawn rfl
  obtain ⟨t, hrun, ht⟩ := applyCommitLogs_spec hs drawn
  have hmap : drawn.map (fun x => x.1.command) =
      (applyWindow c.process.raft.lastIncludedIndex k).map fun j => (L j).command :=
    List.map_map.symm.trans hcommands
  rw [hmap, mapAt_append h0 hk] at ht
  exact ⟨_, t, hrun, ht⟩

end Replay

/-! ## Runs -/

/-- A node without a snapshot file has never had a snapshot. -/
def Backed (c : RaftClerk) (p : Process) : Prop := c.snapshotFile = none → p.fileLabel.1 = 0

section Backed

variable {codec : SnapshotCodec} {L : LogOf} {a : Int} {c c' : RaftClerk} {p p' : Process}

theorem Backed.congr (h : Backed c p) (hfile : c'.snapshotFile = c.snapshotFile)
    (hlabel : p'.fileLabel = p.fileLabel) : Backed c' p' := by
  intro hnone
  rw [hlabel]
  exact h (hfile.symm.trans hnone)

theorem Backed.attends (h : Backed c p) {x : Item} {xs : List Item} {m : RaftMessage} {b : Bool}
    (hm : x.msg = m) (hat : Attends codec L a c m b c') :
    Backed c' ({ p with inner := xs }.serve b x) := by
  have hlabel (hgiven : (clerkAnswer b m).bind (·.given) = none) :
      ({ p with inner := xs }.serve b x).fileLabel = p.fileLabel := by
    apply fileLabel_of_given
    · exact (Process.serve_spec { p with inner := xs } b x).1
    · rw [given_serve, hm, hgiven]
      exact List.append_nil _
  cases hat with
  | rests _ _ _ hs hnone hgiven => exact h.congr hs.snapshotFile (hlabel hgiven)
  | applies q _ _ hx hc => exact h.congr hc.snapshotFile (hlabel rfl)
  | takes q ps hps => exact nofun
  | installs q s => exact nofun
  | ships q _ data hdata => exact h.congr rfl (hlabel rfl)

theorem Backed.event {e : ClerkEvent} (h : Backed c c.process) (hs : Stored L a c c.process)
    (ha : 0 ≤ a) (hin : InTurn a c.process.raft c.process.channel c.process.handed)
    (ho : c.KeepsStore codec L a e) (he : Happens codec c e c' p') (hpalive : p'.alive = true) :
    Backed c' p' := by
  cases he with
  | turn t ys _ _ hturn hdata hout hys hturned =>
    apply h.congr hdata.snapshotFile
    apply (labels_turn (hturned hpalive) _).1
    rw [hout, List.filterMap_append, given_of_taken hys]
  | arrives ys _ _ hdata hraft hhistory hinner hout hys =>
    apply h.congr hdata.snapshotFile
    apply fileLabel_of_given hraft
    rw [hout, List.filterMap_append, given_of_arrived hys, List.append_nil]
  | attends opens draws x xs he hinner =>
    subst he
    have hhead : x ∈ c.process.inner.head? := by
      rw [hinner]
      rfl
    exact h.attends rfl
      (hs.attend ha hin hinner (ho.follows x hhead) (ho.serves x hhead) draws)

end Backed

/-- The files that a life starts with. -/
structure Starts (id : Int) (ids : List Int) (L : LogOf) (top : Int)
    (file : Option RaftPersistData) (snapshotFile : Option Str) : Prop where
  boots : Boots SnapshotData.codec L file snapshotFile
  holds : (restart id ids file).persistData.Holds L top
  typed : ∀ d ∈ file, d.Typed

/-- What holds in a run that keeps the files. -/
structure DiskKept (L : LogOf) (id : Int) (ids : List Int) (file : Option RaftPersistData)
    (c : RaftClerk) : Prop where
  labels : LabelsKept SnapshotData.codec L id ids file c
  reaches : c.process.Reaches (Process.Obeys KeepsFile) id ids file
  backed : c.alive = true → c.process.alive = true → Backed c c.process

section Runs

variable {L : LogOf} {id : Int} {ids : List Int} {addresses : List Str}
  {draws : List (List Bool)} {file : Option RaftPersistData} {snapshotFile : Option Str}
  {top : Int} {c c' : RaftClerk} {x : Crash} {e : ClerkEvent} {n : Nat}

theorem DiskKept.step (h : DiskKept L id ids file c)
    (ha : 0 ≤ (restart id ids file).lastIncludedIndex)
    (ho : KeepsDisk L (restart id ids file).lastIncludedIndex c e)
    (hs : c.step SnapshotData.codec e = some c') : DiskKept L id ids file c' := by
  have hlabels := h.labels.step ha SnapshotData.faithful_codec ho.toKeepsLabels hs
  obtain ⟨halive, hpalive, p', hp', rfl⟩ := step_some hs
  refine ⟨hlabels, reaches_stepAlive h.reaches hpalive ho.file hp', ?_⟩
  intro _ hpalive'
  have hstored := (h.labels.inStep halive hpalive).toStored
  have hevent := (h.backed halive hpalive).event hstored ha
    (inTurn_of_reaches h.labels.reaches hpalive) ho.toKeepsLabels.keepsStore
    (happens_of_stepAlive hp') hpalive'
  exact hevent.congr rfl rfl

theorem diskKept_of_reaches (hstart : Starts id ids L top file snapshotFile)
    (hr : Reaches (KeepsDisk L (restart id ids file).lastIncludedIndex) SnapshotData.codec draws
      id ids addresses file snapshotFile c) : DiskKept L id ids file c := by
  obtain ⟨c₀, es, hinit, hr⟩ := hr
  apply hr.invariant fun s e t hs ho hst => hs.step hstart.boots.low ho hst
  refine ⟨labelsKept_init hstart.boots hinit, ?_, ?_⟩
  · obtain ⟨s, hs, rfl⟩ := Option.map_eq_some_iff.mp hinit
    exact ⟨[], .nil _⟩
  · obtain ⟨s, hs, rfl⟩ := Option.map_eq_some_iff.mp hinit
    intro _ _ hnone
    have hboots := hstart.boots
    show (restart id ids file).lastIncludedIndex = 0
    cases file with
    | none => rfl
    | some d =>
      rw [show snapshotFile = none from hnone] at hboots
      exact hboots.2

theorem DiskKept.saved (h : DiskKept L id ids file c)
    (hstart : Starts id ids L top file snapshotFile) (hpalive : c.process.alive = true) :
    View.Saved id ids L top c.process.view :=
  ((upholds_saved id ids L top).reaches
    ⟨durable_init id ids file, hstart.holds, hstart.typed⟩ h.reaches).1 hpalive

/-- All entries that have been applied, in this life or in an earlier one, are still there
behind the snapshot point. -/
theorem DiskKept.holds (h : DiskKept L id ids file c)
    (hstart : Starts id ids L top file snapshotFile) (halive : c.alive = true)
    (hpalive : c.process.alive = true) : c.process.raft.persistData.Holds L
      (max top ((restart id ids file).lastIncludedIndex + c.applied.length)) := by
  have hsaved := h.saved hstart hpalive
  have hstep := h.labels.inStep halive hpalive
  have hin := inTurn_of_reaches h.labels.reaches hpalive
  intro j hlt htop
  by_cases hj : j ≤ top
  · exact hsaved.holds j hlt hj
  have hincluded : c.process.raft.lastIncludedIndex < j := hlt
  have hlow := hstep.low
  obtain ⟨k, hk⟩ : ∃ k : Nat, j = (restart id ids file).lastIncludedIndex + 1 + k :=
    ⟨(j - (restart id ids file).lastIncludedIndex - 1).toNat, by omega⟩
  have hkl : k < c.applied.length := by omega
  have hx : c.process.handed[k]? = some c.applied[k] := by
    rw [← hstep.split, List.getElem?_append_left hkl]
    exact List.getElem?_eq_getElem hkl
  have hindex : c.applied[k].1 = j := (index_of_window hin.indices hx).trans hk.symm
  have hentry := hstep.kept _ (List.mem_of_getElem? hx) (hindex ▸ hincluded)
  have hcore := hsaved.books.toBooked.getLogAt_persistData hincluded
  rw [hindex] at hentry
  have hview : c.process.view.raft.getLogAt j = some c.applied[k].2 := hentry
  rw [hview, Option.map_some, hstep.follows _ (List.getElem_mem hkl), hindex] at hcore
  exact hcore.symm

/-! ### What the files hold -/

/-- What the core writes in an event is as good as what is there before. -/
theorem DiskKept.persists (h : DiskKept L id ids file c)
    (hstart : Starts id ids L top file snapshotFile) (halive : c.alive = true)
    (hpalive : c.process.alive = true)
    (ho : KeepsDisk L (restart id ids file).lastIncludedIndex c e) :
    ∀ d ∈ c.persists e, d.Typed ∧
      d.Holds L (max top ((restart id ids file).lastIncludedIndex + c.applied.length)) := by
  unfold RaftClerk.persists
  cases hturn : c.process.turn (e.event true) with
  | none => exact nofun
  | some i =>
    have hkeeps : KeepsFile c.process.raft i := ho.file i (Option.mem_def.mpr hturn)
    obtain ⟨rest, hp⟩ := Process.turn_channel (Option.mem_def.mpr hturn)
    have hdurable := (upholds_durable id ids).perm _ _ (h.saved hstart hpalive).toDurable hp
    have hwrites := (hdurable.writes rfl hkeeps.own (h.holds hstart halive hpalive)).1
    exact fun d hd => ⟨hkeeps.typed d hd, hwrites d hd⟩

/-- Each of the writes leaves a file that goes on from the entries applied. -/
theorem DiskKept.fileAfter (h : DiskKept L id ids file c)
    (hstart : Starts id ids L top file snapshotFile) (halive : c.alive = true)
    (hpalive : c.process.alive = true)
    (ho : KeepsDisk L (restart id ids file).lastIncludedIndex c e) (n : Nat) :
    (∀ d ∈ c.fileAfter e n, d.Typed) ∧ (restart id ids (c.fileAfter e n)).persistData.Holds L
      (max top ((restart id ids file).lastIncludedIndex + c.applied.length)) := by
  have hsaved := h.saved hstart hpalive
  have hwritten : ∀ d ∈ (c.persists e).take n, d.Typed ∧ d.Holds L
      (max top ((restart id ids file).lastIncludedIndex + c.applied.length)) :=
    fun d hd => h.persists hstart halive hpalive ho d (List.mem_of_mem_take hd)
  unfold RaftClerk.fileAfter
  constructor
  · exact file_ind (Q := fun f => ∀ d ∈ f, d.Typed) hsaved.typed fun d hd =>
      typed_some (hwritten d hd).1
  · refine file_ind (Q := fun f => (restart id ids f).persistData.Holds L _) ?_ fun d hd => ?_
    · have hdata : (restart id ids c.process.file).persistData = c.process.raft.persistData :=
        hsaved.saved
      rw [hdata]
      exact h.holds hstart halive hpalive
    · have hdata : (restart id ids (some d)).persistData = d := loadPersist_persistData id ids d
      rw [hdata]
      exact (hwritten d hd).2

theorem fileAfter_succ {d : RaftPersistData} (hd : (c.persists e)[n]? = some d) :
    c.fileAfter e (n + 1) = some d := by
  obtain ⟨hlt, hget⟩ := List.getElem?_eq_some_iff.mp hd
  unfold RaftClerk.fileAfter
  rw [List.take_succ_eq_append_getElem hlt, hget, List.getLast?_concat]
  rfl

/-- A text that a whole write has left loads. -/
theorem parse_file {f : Option RaftPersistData} (h : ∀ d ∈ f, d.Typed) :
    (f.map PersistData.serialize).bind PersistData.parse = f := by
  cases f with
  | none => rfl
  | some d =>
    rw [Option.map_some, Option.bind_some, PersistData.parse_serialize (h d rfl)]

/-- What is known of the data that a restart finds. -/
structure Found (L : LogOf) (id : Int) (ids : List Int) (top : Int) (c : RaftClerk) (x : Crash)
    (f : Option RaftPersistData) : Prop where
  loads : (c.leaves x).file = f
  state : f = c.before x ∨ f = c.after x
  rests : x.write = none → f = c.process.file
  typed : ∀ d ∈ f, d.Typed
  holds : (restart id ids f).persistData.Holds L top

theorem DiskKept.found (h : DiskKept L id ids file c)
    (hstart : Starts id ids L top file snapshotFile) (halive : c.alive = true)
    (hpalive : c.process.alive = true)
    (hstep : ∀ e n k, x.write = some (e, n, k) →
      KeepsDisk L (restart id ids file).lastIncludedIndex c e) {f : Option RaftPersistData}
    (hf : Finds c x f) : Found L id ids
      (max top ((restart id ids file).lastIncludedIndex + c.applied.length)) c x f := by
  have hsaved := h.saved hstart hpalive
  cases hf with
  | rests hx =>
    refine ⟨?_, .inl ?_, fun _ => rfl, hsaved.typed, ?_⟩
    · show (c.persistText x).bind PersistData.parse = _
      rw [persistText, hx]
      exact parse_file hsaved.typed
    · rw [before, hx]
    · have hdata : (restart id ids c.process.file).persistData = c.process.raft.persistData :=
        hsaved.saved
      rw [hdata]
      exact h.holds hstart halive hpalive
  | @ended e n k hx hn =>
    obtain ⟨htyped, hholds⟩ := h.fileAfter hstart halive hpalive (hstep _ _ _ hx) n
    refine ⟨?_, .inl ?_, ?_, htyped, hholds⟩
    · show (c.persistText x).bind PersistData.parse = _
      simp only [persistText, hx, hn]
      exact parse_file htyped
    · rw [before, hx]
    · rw [hx]
      exact nofun
  | @done e n k d hx hd hk =>
    obtain ⟨htyped, hholds⟩ := h.fileAfter hstart halive hpalive (hstep _ _ _ hx) (n + 1)
    rw [fileAfter_succ hd] at htyped hholds
    refine ⟨?_, .inr ?_, ?_, htyped, hholds⟩
    · show (c.persistText x).bind PersistData.parse = _
      simp only [persistText, hx, hd, hk]
      exact parse_file htyped
    · rw [after, hx]
      exact (fileAfter_succ hd).symm
    · rw [hx]
      exact nofun
  | @undone e n k d d' hx hd hold hk =>
    obtain ⟨htyped, hholds⟩ := h.fileAfter hstart halive hpalive (hstep _ _ _ hx) n
    rw [hold] at htyped hholds
    refine ⟨?_, .inl ?_, ?_, htyped, hholds⟩
    · show (c.persistText x).bind PersistData.parse = _
      simp only [persistText, hx, hd, hk]
      exact parse_file htyped
    · rw [before, hx]
      exact hold.symm
    · rw [hx]
      exact nofun

/-- The snapshot file goes with the data that has its label. -/
theorem DiskKept.boots (h : DiskKept L id ids file c)
    (hlow : 0 ≤ (restart id ids file).lastIncludedIndex) (halive : c.alive = true)
    (hpalive : c.process.alive = true) {d : RaftPersistData}
    (hlabel : c.process.fileLabel = d.point) :
    Boots SnapshotData.codec L (some d) c.snapshotFile := by
  have hstep := h.labels.inStep halive hpalive
  have hindex : c.process.fileLabel.1 = d.lastIncludedIndex := congrArg Prod.fst hlabel
  have hterm : c.process.fileLabel.2 = d.lastIncludedTerm := congrArg Prod.snd hlabel
  constructor
  · have hle : c.process.raft.lastIncludedIndex ≤ c.process.fileLabel.1 :=
      le_getLastD hstep.rising c.process.raft.point List.mem_cons_self
    have hge := hstep.low
    omega
  · cases hfile : c.snapshotFile with
    | none => exact hindex.symm.trans (h.backed halive hpalive hfile)
    | some data =>
      have hexact := hstep.file data hfile
      rw [hindex, hterm] at hexact
      exact hexact

/-- The constructor, when the files belong together. -/
theorem init_spec {f : Option RaftPersistData} (draws : List (List Bool)) (id : Int)
    (ids : List Int) (addresses : List Str)
    (hboots : ∀ d, f = some d → Boots SnapshotData.codec L f snapshotFile) :
    ∃ s, init SnapshotData.codec draws id ids addresses f snapshotFile = some s ∧
      s.process = Process.init id ids f ∧
      s.kvStore.Represents (mapAt L (restart id ids f).lastIncludedIndex) := by
  cases f with
  | none => exact ⟨_, rfl, rfl, newStore_represents⟩
  | some d =>
    have hboot := hboots d rfl
    obtain ⟨s, hs⟩ : ∃ s, installSnapshotFromPersist SnapshotData.codec draws snapshotFile =
        some s := by
      cases snapshotFile with
      | none => exact ⟨newStore, rfl⟩
      | some data =>
        obtain ⟨_, hexact⟩ := hboot
        obtain ⟨ps, hparse, _⟩ := Labelled.Exact.data hexact
        obtain ⟨t, hinstall, _⟩ := installEntries_spec newStore_represents ps draws
        dsimp only at hparse
        refine ⟨t, ?_⟩
        unfold installSnapshotFromPersist
        simp only [hparse]
        exact hinstall
    have hstore : s.Represents (mapAt L (restart id ids (some d)).lastIncludedIndex) :=
      hboot.store hs
    unfold init
    rw [if_pos (by rfl), hs, Option.map_some]
    exact ⟨_, rfl, rfl, hstore⟩

/-- The constructor brings the node back with the data that it finds. -/
theorem Found.recovered (hf : Found L id ids top c x file)
    (hboots : ∀ d, file = some d → Boots SnapshotData.codec L file c.snapshotFile)
    (hs : c.snapshotText x = c.snapshotFile) (hsaved : (restart id ids c.process.file).Restores
      c.process.raft) (draws : List (List Bool)) :
    ∃ c' ∈ (boot draws id ids addresses (c.leaves x)).clerk,
      Recovered L id ids top c x c' := by
  obtain ⟨c', hinit, hprocess, hstore⟩ :=
    init_spec draws id ids addresses hboots
  have hraft : c'.process.raft = restart id ids file := by
    rw [hprocess]
    rfl
  refine ⟨c', ?_, ?_, ?_, ?_⟩
  · rw [clerk_boot, hf.loads]
    show init _ _ _ _ _ file (c.snapshotText x) = some c'
    rw [hs]
    exact hinit
  · rw [hraft]
    exact hf.state.imp (congrArg _) (congrArg _)
  · intro hx
    rw [hraft, hf.rests hx]
    exact hsaved
  · intro k hk htop
    have hlow : 0 ≤ (restart id ids file).lastIncludedIndex := by
      cases file with
      | none => exact Int.le_refl 0
      | some d => exact (hboots d rfl).low
    rw [hraft] at hk
    have hholds : c'.process.raft.persistData.Holds L top := by
      rw [hraft]
      exact hf.holds
    apply replays_of_holds _ _ _ hholds _ _ htop <;> rw [hraft]
    · exact restart_booked id ids file
    · exact hlow
    · exact (restart_marks id ids file).2
    · exact hstore
    · exact hk

/-- A text of the snapshot that ends within a field does not load. -/
theorem parse_of_not_whole {text : Str} (h : ¬ SnapshotData.Whole text) :
    SnapshotData.parse text = none := by
  unfold SnapshotData.Whole at h
  rw [Bool.not_eq_true, Option.isSome_eq_false_iff, Option.isNone_iff_eq_none] at h
  unfold SnapshotData.parse
  rw [h]
  rfl

/-- What a crash at a safe point leaves is unreadable, or it goes with data that is there. -/
theorem DiskKept.safe (h : DiskKept L id ids file c)
    (hstart : Starts id ids L top file snapshotFile) (halive : c.alive = true)
    (hpalive : c.process.alive = true)
    (hstep : ∀ e n k, x.write = some (e, n, k) →
      KeepsDisk L (restart id ids file).lastIncludedIndex c e) (hsafe : c.Safe x) :
    (c.leaves x).Unreadable ∨ ∃ f, Found L id ids
      (max top ((restart id ids file).lastIncludedIndex + c.applied.length)) c x f ∧
      c.snapshotText x = c.snapshotFile ∧
      ∀ d, f = some d → Boots SnapshotData.codec L f c.snapshotFile := by
  cases hsafe with
  | @field e n k d hx hd hcut =>
    refine .inl (.inl ⟨(PersistData.serialize d).take k, ?_, PersistData.parse_take hcut⟩)
    show c.persistText x = _
    simp only [persistText, hx, hd]
  | @entry d hfile hcut =>
    obtain ⟨text, htext, hcut⟩ := hcut
    refine .inl (.inr ⟨?_, text, htext, parse_of_not_whole hcut⟩)
    rw [(h.found hstart halive hpalive hstep hfile).loads]
    rfl
  | @whole f hfile hs hlabel =>
    refine .inr ⟨f, h.found hstart halive hpalive hstep hfile, hs, ?_⟩
    rintro d rfl
    exact h.boots hstart.boots.low halive hpalive (hlabel d rfl)

/-- What each life has started with. -/
theorem Lives.starts {a : Int} (hl : Lives L id ids addresses a top c) :
    ∃ file snapshotFile, a = (restart id ids file).lastIncludedIndex ∧
      Starts id ids L top file snapshotFile ∧ DiskKept L id ids file c := by
  induction hl with
  | first hr =>
    have hstart : Starts id ids L 0 none none := by
      refine ⟨rfl, ?_, nofun⟩
      intro j hlt hle
      have hpos : 0 < j := hlt
      omega
    exact ⟨none, none, rfl, hstart, diskKept_of_reaches hstart hr⟩
  | @again a top q c x draws hq hlive hstep hsafe hread hpair hr ih =>
    obtain ⟨file, snapshotFile, rfl, hstart, hkept⟩ := ih
    obtain ⟨f, hf, hs, hboots⟩ :=
      (hkept.safe hstart hlive.1 hlive.2 hstep hsafe).resolve_left (mt reports_boot.mpr hread)
    have hloads : (q.leaves x).file = f := hf.loads
    have hsnapshot : (q.leaves x).snapshot = q.snapshotFile := hs
    rw [hloads, hsnapshot] at hr hpair
    rw [hloads]
    have hnext : Starts id ids L
        (max top ((restart id ids file).lastIncludedIndex + q.applied.length)) f
        q.snapshotFile := by
      refine ⟨?_, hf.holds, hf.typed⟩
      cases f with
      | none => exact hpair rfl
      | some d => exact hboots d rfl
    exact ⟨f, q.snapshotFile, rfl, hnext, diskKept_of_reaches hnext hr⟩

/-- A node comes back after every crash that comes where it does no harm, in all its lives,
when every step keeps the files. -/
theorem recovers_of_safe (L : LogOf) (id : Int) (ids : List Int) (addresses : List Str)
    (a top : Int) (c : RaftClerk) (hl : Lives L id ids addresses a top c)
    (halive : c.alive = true) (hpalive : c.process.alive = true) (x : Crash)
    (hstep : ∀ e n k, x.write = some (e, n, k) → KeepsDisk L a c e) (hx : c.Safe x) :
    Recovers L id ids addresses (max top (a + c.applied.length)) c x := by
  obtain ⟨file, snapshotFile, rfl, hstart, hkept⟩ := hl.starts
  intro draws
  rcases hkept.safe hstart halive hpalive hstep hx with hread | ⟨f, hf, hs, hboots⟩
  · exact .inl (reports_boot.mpr hread)
  · exact .inr (hf.recovered hboots hs (hkept.saved hstart hpalive).restores draws)

end Runs

/-- A node that has a snapshot ends when it has just written its candidacy down. -/
theorem recovers_candidate :
    ∃ c, Lives putsLog 1 [0, 1, 2] [] 0 0 c ∧ c.process.raft.lastIncludedIndex = 3 ∧
      c.applied.length = 3 ∧ Recovers putsLog 1 [0, 1, 2] [] (max 0 (0 + c.applied.length)) c
        { write := some (.electionTimeout, 0, 100), snapshot := none } := by
  obtain ⟨c, hr, hq⟩ := Reaches.of_exec (KeepsDisk putsLog 0) SnapshotData.codec [] 1 [0, 1, 2] []
    none none ownSnapshot (fun c => decide ((c.alive = true ∧ c.process.alive = true) ∧
      c.process.raft.lastIncludedIndex = 3 ∧ c.applied.length = 3 ∧
      KeepsDisk putsLog 0 c .electionTimeout ∧ ∃ d ∈ (c.persists .electionTimeout)[0]?,
        (PersistData.serialize d).take 100 = PersistData.serialize d ∧
          c.process.fileLabel = d.point)) (by decide +kernel)
  obtain ⟨⟨ha, hp⟩, hi, hl, hk, d, hd, htext, hlabel⟩ := of_decide_eq_true hq
  refine ⟨c, .first hr, hi, hl, recovers_of_safe putsLog 1 [0, 1, 2] [] 0 0 c (.first hr) ha hp _
    ?_ (.whole (.done rfl hd htext) rfl ?_)⟩
  · rintro e n k ⟨⟩
    exact hk
  · rintro _ ⟨⟩
    exact hlabel

/-- The file of a node with three entries is empty when its next write has only opened it.  It
loads, and the node has no entries and no term. -/
theorem empty_file_loads :
    ¬ ∀ (L : LogOf) (draws : List (List Bool)) (id : Int) (ids : List Int)
      (addresses : List Str) (c : RaftClerk),
      Reaches (fun c e => c.Follows SnapshotData.codec L e) SnapshotData.codec draws id ids
        addresses none none c → c.alive = true → c.process.alive = true →
          ∀ x, Recovers L id ids addresses c.applied.length c x := by
  intro h
  let x : Crash := { write := some (.electionTimeout, 0, 0), snapshot := none }
  obtain ⟨c, hr, hq⟩ := Reaches.of_exec (fun c e => c.Follows SnapshotData.codec putsLog e)
    SnapshotData.codec [] 1 [0, 1, 2] [] none none (ownSnapshot.take 4)
    (fun c => decide ((c.alive = true ∧ c.process.alive = true) ∧
      ¬ (boot [] 1 [0, 1, 2] [] (c.leaves x)).Reports ∧
      ((boot [] 1 [0, 1, 2] [] (c.leaves x)).clerk.map fun c' => c'.process.raft.term) = some 0 ∧
      (restart 1 [0, 1, 2] (c.before x)).term = 1 ∧ (restart 1 [0, 1, 2] (c.after x)).term = 2))
    (by decide +kernel)
  obtain ⟨⟨ha, hp⟩, hread, hboot, hbefore, hafter⟩ := of_decide_eq_true hq
  obtain ⟨c', hc', hback⟩ := (h putsLog [] 1 [0, 1, 2] [] c hr ha hp x []).resolve_left hread
  rw [Option.mem_def.mp hc', Option.map_some, Option.some.injEq] at hboot
  rcases hback.state with hs | hs
  · rw [hs, hbefore] at hboot
    cases hboot
  · rw [hs, hafter] at hboot
    cases hboot

end RaftClerk

end WWRaftKV
