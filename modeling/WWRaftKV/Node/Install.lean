/-
Installing a snapshot.

The clerk puts the snapshot of a peer into its store, and the core learns of it later.  It
takes over the index and the term, but neither the commit index nor the applied one, and it
begins its vector with the last entry of the snapshot.
-/
import WWRaftKV.Node.Attend
import WWRaftKV.Node.SnapshotData

namespace WWRaftKV

open Process (Turned)

/-- The index and the term of a snapshot of a peer that has been installed. -/
def RaftMessage.installed : RaftMessage → Option (Int × Nat)
  | .applySnapshotResponse m =>
    if m.lastIncludedIndex = -1 ∧ m.lastIncludedTerm = 0 then none
    else some (m.lastIncludedIndex, m.lastIncludedTerm)
  | _ => none

namespace RaftClerk

section Conditions

variable (codec : SnapshotCodec) (L : LogOf) (a : Int) (c : RaftClerk) (e : ClerkEvent)

/-- The steps that keep the store. -/
structure KeepsStore : Prop where
  follows : c.Follows codec L e
  serves : c.Serves a e
  forward : c.process.Obeys CommitsForward (e.event true)

instance : Decidable (c.KeepsStore codec L a e) :=
  decidable_of_iff (c.Follows codec L e ∧ c.Serves a e ∧
      c.process.Obeys CommitsForward (e.event true))
    ⟨fun h => ⟨h.1, h.2.1, h.2.2⟩, fun h => ⟨h.follows, h.serves, h.forward⟩⟩

end Conditions

/-- The snapshot with this label has moved the node: `r` is the core before it learns of it. -/
structure Installed (L : LogOf) (r : Raft) (l : Int × Nat) (c : RaftClerk) : Prop where
  index : c.process.raft.lastIncludedIndex = l.1
  term : c.process.raft.lastIncludedTerm = l.2
  base : c.process.raft.baseIndex = l.1 + 1
  commit : l.1 ≤ c.process.raft.lastCommitIndex
  applied : l.1 ≤ c.process.raft.lastAppliedIndex
  kept : ∀ j, l.1 < j → c.process.raft.getLogAt j = r.getLogAt j
  store : c.kvStore.Represents (mapAt L c.process.raft.lastAppliedIndex)

/-! ## The store and the entries -/

/-- The store is the one after the entries that the clerk has applied, and every snapshot
that has been installed ends at one of them. -/
structure Stored (L : LogOf) (a : Int) (c : RaftClerk) (p : Process) : Prop where
  split : c.applied ++ handedBy (p.inner.map (·.msg)) = p.handed
  follows : ∀ x ∈ c.applied, x.2.core = L x.1
  store : c.kvStore.Represents (mapAt L (a + c.applied.length))
  installed : ∀ x ∈ p.outter, ∀ l ∈ x.msg.installed, l.1 ≤ a + c.applied.length

section Stored

variable {codec : SnapshotCodec} {L : LogOf} {a : Int} {c c' : RaftClerk} {p p' : Process}
  {t : Input} {x : Item} {xs : List Item} {b : Bool}

theorem installed_of_not_isLocal {m : RaftMessage} (h : m.isLocal = false) :
    m.installed = none := by
  cases m <;> first | rfl | cases h

theorem installed_of_given {m : RaftMessage} (h : m.given = none) : m.installed = none := by
  cases m <;> first | rfl | exact h

theorem Stored.same (h : Stored L a c p) (hs : SameData c c') : Stored L a c' p := by
  constructor
  · rw [hs.applied]
    exact h.split
  · rw [hs.applied]
    exact h.follows
  · rw [hs.kvStore, hs.applied]
    exact h.store
  · rw [hs.applied]
    exact h.installed

theorem Stored.turn (h : Stored L a c p) (ht : Turned p p' t)
    (hout : ∀ y ∈ p'.outter, y ∈ p.outter) : Stored L a c p' where
  split := by
    rw [ht.inner, handedBy_append, ← List.append_assoc, h.split, ht.handed]
  follows := h.follows
  store := h.store
  installed := fun y hy => h.installed y (hout y hy)

theorem Stored.arrive (h : Stored L a c p) (hhistory : p'.history = p.history)
    (hinner : p'.inner = p.inner) (hout : p'.outter = p.outter ++ xs)
    (hxs : ∀ y ∈ xs, y.msg.isLocal = false) : Stored L a c p' where
  split := by
    have hhanded : p'.handed = p.handed := congrArg (List.flatMap CoreStep.handed) hhistory
    rw [hinner, hhanded]
    exact h.split
  follows := h.follows
  store := h.store
  installed := by
    intro y hy l hl
    rw [hout] at hy
    rcases List.mem_append.mp hy with hy | hy
    · exact h.installed y hy l hl
    · rw [installed_of_not_isLocal (hxs y hy)] at hl
      cases hl

/-- The clerk takes a message. -/
theorem Stored.take (h : Stored L a c p) (hp : p.inner = x :: xs)
    (happlied : c'.applied = c.applied ++ handedBy [x.msg])
    (hfollows : ∀ y ∈ handedBy [x.msg], y.2.core = L y.1)
    (hstore : c'.kvStore.Represents (mapAt L (a + c'.applied.length)))
    (hanswer : ∀ l ∈ (clerkAnswer b x.msg).bind (·.installed), l.1 ≤ a + c'.applied.length) :
    Stored L a c' ({ p with inner := xs }.serve b x) := by
  obtain ⟨_, hhistory, hinner, hout⟩ := Process.serve_spec { p with inner := xs } b x
  have hsplit := h.split
  rw [hp, List.map_cons, ← List.singleton_append, handedBy_append] at hsplit
  constructor
  · have hhanded : ({ p with inner := xs }.serve b x).handed = p.handed :=
      congrArg (List.flatMap CoreStep.handed) hhistory
    rw [hhanded, hinner, happlied, ← hsplit, List.append_assoc]
  · intro y hy
    rw [happlied] at hy
    rcases List.mem_append.mp hy with hy | hy
    · exact h.follows y hy
    · exact hfollows y hy
  · exact hstore
  · intro y hy l hl
    rw [hout] at hy
    rcases List.mem_append.mp hy with hy | hy
    · have hold := h.installed y hy l hl
      rw [happlied, List.length_append]
      omega
    · obtain ⟨m, hm, rfl⟩ := List.mem_map.mp hy
      apply hanswer
      rw [Option.mem_toList.mp hm]
      exact hl

/-- The clerk takes a message that hands nothing over. -/
theorem Stored.rest (h : Stored L a c p) (hp : p.inner = x :: xs) (hx : handedBy [x.msg] = [])
    (happlied : c'.applied = c.applied)
    (hstore : c'.kvStore.Represents (mapAt L (a + c.applied.length)))
    (hanswer : ∀ l ∈ (clerkAnswer b x.msg).bind (·.installed), l.1 ≤ a + c.applied.length) :
    Stored L a c' ({ p with inner := xs }.serve b x) := by
  apply h.take hp
  · rw [happlied, hx, List.append_nil]
  · rw [hx]
    exact fun y hy => absurd hy List.not_mem_nil
  · rw [happlied]
    exact hstore
  · rw [happlied]
    exact hanswer

theorem Stored.attends (h : Stored L a c p) (hp : p.inner = x :: xs) {m : RaftMessage}
    (hm : x.msg = m) (hat : Attends codec L a c m b c') (halive : c'.alive = true) :
    Stored L a c' ({ p with inner := xs }.serve b x) := by
  cases hat with
  | rests _ _ _ hs hnone hgiven =>
    apply h.rest hp (by rw [hm]; exact hnone) hs.applied
    · rw [hs.kvStore]
      exact h.store
    · intro l hl
      obtain ⟨q, hq, hl⟩ := Option.bind_eq_some_iff.mp hl
      rw [hm] at hq
      rw [hq, Option.bind_some] at hgiven
      rw [installed_of_given hgiven] at hl
      cases hl
  | applies q _ _ hx hc =>
    obtain ⟨happlied, hstore⟩ := hc.done halive
    have hhanded : handedBy [x.msg] = q.indexed := by
      rw [hm, handedBy_request]
    apply h.take hp _ _ hstore
    · rw [hm]
      exact nofun
    · rw [hhanded]
      exact happlied
    · rw [hhanded]
      exact hx
  | takes q ps =>
    refine h.rest hp (by rw [hm]; rfl) rfl h.store ?_
    rw [hm]
    exact nofun
  | installs q s hindex hq hs =>
    refine h.rest hp (by rw [hm]; rfl) rfl ?_ ?_
    · rw [← hindex]
      exact hs
    · intro l hl
      rw [hm] at hl
      change l ∈ (if q.lastIncludedIndex = -1 ∧ q.lastIncludedTerm = 0 then none
        else some (q.lastIncludedIndex, q.lastIncludedTerm)) at hl
      split at hl
      · cases hl
      · cases hl
        exact Int.le_of_eq hindex
  | ships q _ data hdata =>
    refine h.rest hp (by rw [hm]; rfl) rfl h.store ?_
    rw [hm]
    exact nofun

/-- Entries in front of the clerk go on from the last one that it has applied. -/
theorem Stored.index (h : Stored L a c p) (hin : InTurn a p.raft p.channel p.handed)
    (hp : p.inner = x :: xs) {q : ApplyCommitLogsRequestMessage}
    (hx : x.msg = .applyCommitLogsRequest q) {k : Nat} {y : Int × RaftLogEntry}
    (hy : q.indexed[k]? = some y) : y.1 = a + 1 + (c.applied.length + k : Nat) := by
  have hsplit := h.split
  rw [hp, List.map_cons, hx, ← List.singleton_append, handedBy_append, handedBy_request]
    at hsplit
  apply index_of_window hin.indices
  obtain ⟨hlt, _⟩ := List.getElem?_eq_some_iff.mp hy
  rw [← hsplit, List.getElem?_append_right (Nat.le_add_right _ _), Nat.add_sub_cancel_left,
    List.getElem?_append_left hlt]
  exact hy

/-- What the clerk does for the next message. -/
theorem Stored.attend (h : Stored L a c p) (ha : 0 ≤ a)
    (hin : InTurn a p.raft p.channel p.handed) (hp : p.inner = x :: xs) {opens : Bool}
    (hfollows : FollowsMsg codec L x.msg) (hserves : c.ServesMsg a opens x.msg)
    (draws : List (List Bool)) :
    Attends codec L a c x.msg (c.attend codec opens draws x.msg).1
      (c.attend codec opens draws x.msg).2 := by
  apply attends_attend ha h.store _ hfollows hserves
  intro q hq k y hy
  exact h.index hin hp hq hy

/-- Every event keeps the store. -/
theorem Stored.event {e : ClerkEvent} (h : Stored L a c c.process) (ha : 0 ≤ a)
    (hin : InTurn a c.process.raft c.process.channel c.process.handed)
    (ho : c.KeepsStore codec L a e) (he : Happens codec c e c' p') (halive : c'.alive = true)
    (hpalive : p'.alive = true) : Stored L a c' p' := by
  cases he with
  | turn t ys _ _ ht hs hout hys hturned =>
    apply (h.turn (hturned hpalive) _).same hs
    intro y hy
    rw [hout]
    exact List.mem_append_right _ hy
  | arrives ys _ _ hs _ hhistory hinner hout hys =>
    exact (h.arrive hhistory hinner hout hys).same hs
  | attends opens draws x xs he hinner =>
    subst he
    have hhead : x ∈ c.process.inner.head? := by
      rw [hinner]
      rfl
    exact h.attends hinner rfl
      (h.attend ha hin hinner (ho.follows x hhead) (ho.serves x hhead) draws) halive

end Stored

/-! ## Runs -/

section Runs

variable {codec : SnapshotCodec} {L : LogOf} {c c' : RaftClerk} {id : Int} {ids : List Int}
  {addresses : List Str} {file : Option RaftPersistData} {snapshotFile : Option Str}
  {draws : List (List Bool)}

/-- The point of a node that has just been started. -/
theorem Boots.low (h : Boots codec L file snapshotFile) :
    0 ≤ (restart id ids file).lastIncludedIndex := by
  cases file with
  | none => exact Int.le_refl 0
  | some d => exact h.1

/-- The store of a node that has just been started is the one of its point. -/
theorem Boots.store (h : Boots codec L file snapshotFile) {s : StrStore}
    (hs : (if file.isSome then installSnapshotFromPersist codec draws snapshotFile
      else some newStore) = some s) :
    s.Represents (mapAt L (restart id ids file).lastIncludedIndex) := by
  cases file with
  | none =>
    obtain rfl := Option.some.inj hs
    exact newStore_represents
  | some d =>
    show s.Represents (mapAt L d.lastIncludedIndex)
    obtain ⟨_, hfile⟩ := h
    cases snapshotFile with
    | none =>
      obtain rfl := Option.some.inj hs
      rw [show d.lastIncludedIndex = 0 from hfile, mapAt_zero]
      exact newStore_represents
    | some data =>
      obtain ⟨ps, hparse, hinsert⟩ := Labelled.Exact.data hfile
      obtain ⟨t, hinstall, ht⟩ := installEntries_spec newStore_represents ps draws
      dsimp only at hparse hinsert
      simp only [Option.isSome_some, if_true, installSnapshotFromPersist, hparse] at hs
      obtain rfl := Option.some.inj (hinstall.symm.trans hs)
      rw [← hinsert]
      exact ht

/-- What holds in a run that keeps the store. -/
structure StoreKept (L : LogOf) (id : Int) (ids : List Int) (file : Option RaftPersistData)
    (c : RaftClerk) : Prop where
  reaches : c.process.Reaches (Process.Obeys CommitsForward) id ids file
  stored : c.alive = true → c.process.alive = true →
    Stored L (restart id ids file).lastIncludedIndex c c.process

theorem inTurn_of_reaches (h : c.process.Reaches (Process.Obeys CommitsForward) id ids file)
    (halive : c.process.alive = true) : InTurn (restart id ids file).lastIncludedIndex
      c.process.raft c.process.channel c.process.handed :=
  ((upholds_inTurn _).reaches (inTurn_init id ids file) h).1 halive

theorem storeKept_init (hboot : Boots codec L file snapshotFile)
    (h : init codec draws id ids addresses file snapshotFile = some c) :
    StoreKept L id ids file c := by
  obtain ⟨s, hs, rfl⟩ := Option.map_eq_some_iff.mp h
  refine ⟨⟨[], .nil _⟩, fun _ _ => ⟨rfl, nofun, ?_, nofun⟩⟩
  show s.Represents (mapAt L ((restart id ids file).lastIncludedIndex + 0))
  rw [Int.add_zero]
  exact hboot.store hs

theorem StoreKept.step {e : ClerkEvent} (h : StoreKept L id ids file c)
    (ha : 0 ≤ (restart id ids file).lastIncludedIndex)
    (ho : c.KeepsStore codec L (restart id ids file).lastIncludedIndex e)
    (hs : c.step codec e = some c') : StoreKept L id ids file c' := by
  obtain ⟨halive, hpalive, p', hp', rfl⟩ := step_some hs
  refine ⟨reaches_stepAlive h.reaches hpalive ho.forward hp', ?_⟩
  intro halive' hpalive'
  have hstored := (h.stored halive hpalive).event ha (inTurn_of_reaches h.reaches hpalive) ho
    (happens_of_stepAlive hp') halive' hpalive'
  exact hstored.same ⟨rfl, rfl, rfl, rfl, rfl⟩

theorem storeKept_of_reaches (hboot : Boots codec L file snapshotFile)
    (hr : Reaches (fun c e => c.KeepsStore codec L (restart id ids file).lastIncludedIndex e)
      codec draws id ids addresses file snapshotFile c) : StoreKept L id ids file c := by
  obtain ⟨c₀, es, hinit, hr⟩ := hr
  apply hr.invariant _ (storeKept_init hboot hinit)
  intro s e t hs ho hst
  exact hs.step hboot.low ho hst

end Runs

/-- The core takes the answer of its clerk. -/
theorem step_installed {codec : SnapshotCodec} {c c' : RaftClerk} {x : Item} {xs : List Item}
    {m : ApplySnapshotResponseMessage} (hout : c.process.outter = x :: xs)
    (hx : x.msg = .applySnapshotResponse m)
    (hok : ¬ (m.lastIncludedIndex = -1 ∧ m.lastIncludedTerm = 0))
    (hs : c.step codec .handle = some c') :
    c'.process.raft = c.process.raft.snapshotInstalled m ∧ c'.kvStore = c.kvStore := by
  obtain ⟨_, _, p', hp', rfl⟩ := step_some hs
  simp only [ClerkEvent.event, Process.stepAlive, hout, Option.some.injEq] at hp'
  subst hp'
  constructor
  · show (c.process.raft.react (.message x.msg)).raft = _
    rw [hx, Raft.react_installed hok]
  · exact (sameData_observe c .handle).kvStore

/-- In every state: `_TruncateBefore(i)` leaves the base where it is, or at `i`.  So the base is
`i + 1` after the install only if it has been so before, whatever the log is. -/
theorem base_of_installed {codec : SnapshotCodec} {c c' : RaftClerk} {x : Item} {xs : List Item}
    {m : ApplySnapshotResponseMessage} (hout : c.process.outter = x :: xs)
    (hx : x.msg = .applySnapshotResponse m)
    (hok : ¬ (m.lastIncludedIndex = -1 ∧ m.lastIncludedTerm = 0))
    (hs : c.step codec .handle = some c')
    (hbase : c'.process.raft.baseIndex = m.lastIncludedIndex + 1) :
    c.process.raft.baseIndex = m.lastIncludedIndex + 1 := by
  rw [(step_installed hout hx hok hs).1] at hbase
  change (c.process.raft.truncateBefore m.lastIncludedIndex).baseIndex = _ at hbase
  unfold Raft.truncateBefore at hbase
  split at hbase
  · exact hbase
  · change m.lastIncludedIndex = m.lastIncludedIndex + 1 at hbase
    omega

/-- A node is moved to a snapshot that it installs only if its own snapshot ends there: in every
run that keeps the store, when the core knows of all entries that the clerk has applied. -/
theorem installed_iff_base (codec : SnapshotCodec) (L : LogOf) (draws : List (List Bool))
    (id : Int) (ids : List Int) (addresses : List Str) (file : Option RaftPersistData)
    (snapshotFile : Option Str) (hboot : Boots codec L file snapshotFile) (c c' : RaftClerk)
    (hr : Reaches (fun c e => c.KeepsStore codec L (restart id ids file).lastIncludedIndex e)
      codec draws id ids addresses file snapshotFile c)
    (x : Item) (xs : List Item) (m : ApplySnapshotResponseMessage)
    (hout : c.process.outter = x :: xs) (hx : x.msg = .applySnapshotResponse m)
    (hok : ¬ (m.lastIncludedIndex = -1 ∧ m.lastIncludedTerm = 0))
    (hs : c.step codec .handle = some c')
    (hknown : c.process.raft.lastAppliedIndex =
      (restart id ids file).lastIncludedIndex + c.applied.length) :
    c'.Installed L c.process.raft (m.lastIncludedIndex, m.lastIncludedTerm) ↔
      c.process.raft.baseIndex = m.lastIncludedIndex + 1 := by
  obtain ⟨halive, hpalive, _⟩ := step_some hs
  obtain ⟨hraft, hkv⟩ := step_installed hout hx hok hs
  constructor
  · intro h
    exact base_of_installed hout hx hok hs h.base
  · intro hbase
    have hkept := storeKept_of_reaches hboot hr
    have hstored := hkept.stored halive hpalive
    have hin := inTurn_of_reaches hkept.reaches hpalive
    have hdone : m.lastIncludedIndex ≤ c.process.raft.lastAppliedIndex := by
      rw [hknown]
      apply hstored.installed x (by rw [hout]; exact List.mem_cons_self)
        (m.lastIncludedIndex, m.lastIncludedTerm)
      rw [hx, RaftMessage.installed, if_neg hok]
      rfl
    have hlength := congrArg List.length hstored.split
    rw [List.length_append] at hlength
    have hahead := hin.ahead
    -- nothing is cut off
    have hsame : c.process.raft.truncateBefore m.lastIncludedIndex = c.process.raft := by
      rw [Raft.truncateBefore, if_pos (.inl (by omega))]
    have hraft' : c'.process.raft = c.process.raft.setLastIncluded m.lastIncludedIndex
        m.lastIncludedTerm := by
      rw [hraft, Raft.snapshotInstalled, hsame]
    constructor
    · rw [hraft']
      rfl
    · rw [hraft']
      rfl
    · rw [hraft']
      exact hbase
    · rw [hraft']
      show m.lastIncludedIndex ≤ c.process.raft.lastCommitIndex
      omega
    · rw [hraft']
      exact hdone
    · intro j _
      rw [hraft']
      rfl
    · rw [hraft', hkv]
      show c.kvStore.Represents (mapAt L c.process.raft.lastAppliedIndex)
      rw [hknown]
      exact hstored.store

/-- The log of a client that puts a fresh key each time. -/
def putsLog : LogOf := fun j =>
  { term := 1, command := ['p', 'u', 't', ' ', Char.ofNat (96 + j.toNat), ' ', '1'] }

/-- The first three entries reach a fresh follower, are applied, and it takes a snapshot. -/
def ownSnapshot : List ClerkEvent :=
  [.request 0 (.appendEntriesRequest
      { term := 1, fromId := 0, prevLogIndex := 0, prevLogTerm := 0, leaderCommit := 3,
        entries := [1, 2, 3].map fun j => (putsLog j).entry }),
    .handle, .clerk true [], .clerk true [], .handle, .clerk true [], .handle]

/-- The leader's snapshot up to index 3 arrives, and the clerk installs it. -/
def snapshotOfThree : List ClerkEvent :=
  [.request 0 (.installSnapshotRequest
      { term := 1, fromId := 0, lastIncludedIndex := 3, lastIncludedTerm := 1,
        snapshot := SnapshotData.serialize [(['a'], ['1']), (['b'], ['1']), (['c'], ['1'])] }),
    .handle, .clerk true []]

theorem installed_again :
    ∃ c c', Reaches (fun c e => c.KeepsStore SnapshotData.codec putsLog
        (restart 1 [0, 1, 2] none).lastIncludedIndex e)
      SnapshotData.codec [] 1 [0, 1, 2] [] none none c ∧
      c.step SnapshotData.codec .handle = some c' ∧
      c'.Installed putsLog c.process.raft (3, 1) := by
  obtain ⟨c, hr, hq⟩ := Reaches.of_exec (fun c e => c.KeepsStore SnapshotData.codec putsLog
      (restart 1 [0, 1, 2] none).lastIncludedIndex e) SnapshotData.codec [] 1 [0, 1, 2] [] none none
    (ownSnapshot ++ snapshotOfThree) (fun c => decide (c.process.outter =
        [⟨.applySnapshotResponse ⟨2, 3, 1⟩, some 1⟩] ∧
      c.process.raft.lastAppliedIndex = 0 + c.applied.length ∧ c.process.raft.baseIndex = 3 + 1 ∧
      (c.step SnapshotData.codec .handle).isSome = true)) (by decide +kernel)
  obtain ⟨hout, hknown, hbase, hsome⟩ := of_decide_eq_true hq
  obtain ⟨c', hs⟩ := Option.isSome_iff_exists.mp hsome
  exact ⟨c, c', hr, hs, (installed_iff_base SnapshotData.codec putsLog [] 1 [0, 1, 2] [] none none
    rfl c c' hr _ _ _ hout rfl (by decide) hs hknown).mpr hbase⟩

theorem base_not_moved :
    ¬ ∀ (codec : SnapshotCodec) (L : LogOf) (draws : List (List Bool)) (id : Int)
      (ids : List Int) (addresses : List Str) (file : Option RaftPersistData)
      (snapshotFile : Option Str) (_ : Boots codec L file snapshotFile) (c c' : RaftClerk),
      Reaches (fun c e => c.Follows codec L e) codec draws id ids addresses file snapshotFile c →
      ∀ (x : Item) (xs : List Item) (m : ApplySnapshotResponseMessage),
        c.process.outter = x :: xs → x.msg = .applySnapshotResponse m →
        ¬ (m.lastIncludedIndex = -1 ∧ m.lastIncludedTerm = 0) →
        c.step codec .handle = some c' →
        c'.Installed L c.process.raft (m.lastIncludedIndex, m.lastIncludedTerm) := by
  intro h
  obtain ⟨c, hr, hq⟩ := Reaches.of_exec (fun c e => c.Follows SnapshotData.codec putsLog e)
    SnapshotData.codec [] 1 [0, 1, 2] [] none none snapshotOfThree (fun c => decide
      (c.process.outter = [⟨.applySnapshotResponse ⟨1, 3, 1⟩, some 0⟩] ∧
        ((c.step SnapshotData.codec .handle).map fun c' =>
          (c'.process.raft.baseIndex, c'.process.raft.lastAppliedIndex)) = some (1, 0)))
    (by decide +kernel)
  obtain ⟨hout, hstep⟩ := of_decide_eq_true hq
  obtain ⟨c', hs, hmarks⟩ := Option.map_eq_some_iff.mp hstep
  have hbase := (h SnapshotData.codec putsLog [] 1 [0, 1, 2] [] none none rfl c c' hr _ _ _ hout rfl
    (by decide) hs).base
  rw [(Prod.mk.inj hmarks).1] at hbase
  exact absurd hbase (by decide)

end RaftClerk

end WWRaftKV
