/-
The books are kept in every event of an orderly run.

The clerk takes a message of the core and runs a closure, or it applies entries, or it does
something that the clients do not see.  The core takes an operation and answers it or makes
an entry of it, and hands committed entries over.
-/
import WWRaftKV.Node.Clients

namespace WWRaftKV

namespace RaftClerk

open Raft (applyWindow)
open Process (Turned turned_react)

variable {c c' : RaftClerk} {key : Nat → Str × Nat} {a : Int} {p p' : Process}
  {todo : List (Int × RaftLogEntry)} {n k : Nat} {i : Int} {e : RaftLogEntry}

/-! ## What the clients do not see -/

/-- The process, the store and the snapshots are not in the books. -/
theorem Books.aside (h : c.Books key a p todo) (q : Process) (b : Bool) (s : StrStore)
    (f : Option Str) (l l' : List Labelled) :
    Books { c with process := q, alive := b, kvStore := s, snapshotFile := f,
                   written := l, shipped := l' } key a p todo where
  counted := h.counted
  waiting := h.waiting
  wire := h.wire
  answering := h.answering
  responding := h.responding
  respond := h.respond
  sorted := h.sorted
  wrote := by
    intro w hw
    obtain ⟨hop, hkey, hnamed, hcommand, hsince⟩ := h.wrote w hw
    exact ⟨hop, hkey, hnamed, hcommand, hsince⟩
  answeredLt := h.answeredLt
  registered := h.registered
  reused := h.reused
  split := h.split
  indices := h.indices
  log := h.log
  under := h.under

theorem Answered.aside (h : c.Answered) (q : Process) (b : Bool) (s : StrStore)
    (f : Option Str) (l l' : List Labelled) :
    Answered { c with process := q, alive := b, kvStore := s, snapshotFile := f,
                      written := l, shipped := l' } where
  once := h.once
  own := h.own
  found := h.found
  applied := h.applied

/-! ## The clerk takes a message -/

/-- A message that answers no operation is taken, and what it hands over is to be done. -/
theorem Books.pop {x : Item} {xs : List Item} (h : c.Books key a p []) (hp : p.inner = x :: xs)
    (hx : x.msg.answerKey = none) :
    c.Books key a { p with inner := xs } (handedBy [x.msg]) := by
  have hsplit := h.split
  have hanswering := h.answering
  rw [hp] at hsplit hanswering
  rw [List.filterMap_cons_none (f := fun y : Item => y.msg.answerKey) hx] at hanswering
  constructor
  · exact h.counted
  · exact h.waiting
  · exact h.wire
  · exact hanswering
  · exact h.responding
  · exact h.respond
  · exact h.sorted
  · exact h.wrote
  · exact h.answeredLt
  · exact h.registered
  · exact h.reused
  · show c.applied ++ (handedBy [x.msg] ++ handedBy (xs.map (·.msg))) = p.handed
    rw [← handedBy_append, ← hsplit]
    rfl
  · exact h.indices
  · exact h.log
  · exact h.under

/-- The core has answered the operation that the clerk now writes the response of. -/
theorem Books.popAnswer {x : Item} {xs : List Item} (h : c.Books key a p [])
    (hp : p.inner = x :: xs) {m : KVOperationResponseMessage}
    (hx : x.msg = .kvOperationResponse m) :
    ∃ n ns, c.responding = n :: ns ∧ key n = (m.uuid, m.seq) ∧
      Books { c with responding := ns } key a { p with inner := xs } [] := by
  have hsplit := h.split
  have hanswering := h.answering
  rw [hp] at hsplit hanswering
  rw [List.filterMap_cons_some (b := (m.uuid, m.seq)) (by rw [hx]; rfl)] at hanswering
  obtain ⟨n, ns, hresp, hkey, hrest⟩ := List.map_eq_cons_iff.mp hanswering.symm
  refine ⟨n, ns, hresp, hkey, ?_⟩
  have hsub : ∀ n' ∈ ns, n' ∈ c.responding := fun n' hn' => hresp ▸ List.mem_cons_of_mem _ hn'
  constructor
  · exact h.counted
  · exact h.waiting
  · exact h.wire
  · exact hrest.symm
  · exact (List.nodup_cons.mp (hresp ▸ h.responding)).2
  · exact fun n' hn' => h.respond n' (hsub n' hn')
  · exact h.sorted
  · intro w hw
    obtain ⟨hop, hkey, hnamed, hcommand, hsince⟩ := h.wrote w hw
    exact ⟨hop, hkey, hnamed, hcommand, hsince⟩
  · exact h.answeredLt
  · exact h.registered
  · exact h.reused
  · show c.applied ++ ([] ++ handedBy (xs.map (·.msg))) = p.handed
    rw [← hsplit, List.map_cons, hx]
    rfl
  · exact h.indices
  · exact h.log
  · exact h.under

/-- The response is written into the closure of its operation, or the process ends. -/
theorem Books.respondTo {x : Item} {xs : List Item} (h : c.Books key a p [])
    (hgood : c.Answered) (hp : p.inner = x :: xs) {m : KVOperationResponseMessage}
    (hx : x.msg = .kvOperationResponse m) (draws : List Bool) :
    (c.sendKVOperationResponse m draws).Answered ∧
      ((c.sendKVOperationResponse m draws).alive = true →
        (c.sendKVOperationResponse m draws).Books key a { p with inner := xs } []) := by
  obtain ⟨n, ns, hresp, hkey, hbooks⟩ := h.popAnswer hp hx
  have hmem : n ∈ c.responding := hresp ▸ List.mem_cons_self
  obtain ⟨hlt, hopen, hwrite⟩ := h.respond n hmem
  have hpending : c.pendingKvRequests (m.uuid, m.seq) = some n := by
    rw [← hkey]
    exact h.registered n (Nat.lt_of_lt_of_le hlt h.counted) hopen
  have hgood' : Answered { c with responding := ns } :=
    ⟨hgood.once, hgood.own, hgood.found, hgood.applied⟩
  have hanswer : ∀ (s : StrStore) (status : StatusCode) (payload : Str),
      Answered (RaftClerk.answer { c with responding := ns, kvStore := s }
          (m.uuid, m.seq) (some n) status payload) ∧
        Books (RaftClerk.answer { c with responding := ns, kvStore := s }
          (m.uuid, m.seq) (some n) status payload) key a { p with inner := xs } [] := by
    intro s status payload
    rw [answer_eq (c := { c with responding := ns, kvStore := s }) hpending]
    constructor
    · exact (hgood'.aside c.process c.alive s c.snapshotFile c.written c.shipped).answer _
        hopen status payload
    · rw [← hkey]
      apply (hbooks.aside c.process c.alive s c.snapshotFile c.written c.shipped).answer hlt hopen
      · exact (List.nodup_cons.mp (hresp ▸ h.responding)).1
      · exact fun w hw heq => absurd heq (hwrite w hw)
      · rfl
  have hdies : Answered { c with responding := ns, alive := false } :=
    hgood'.aside c.process false c.kvStore c.snapshotFile c.written c.shipped
  unfold sendKVOperationResponse
  rw [hresp]
  dsimp only [List.head?_cons, List.tail_cons]
  rw [hpending, Option.isNone_some, if_neg Bool.false_ne_true]
  split
  · split
    · split
      · exact ⟨(hanswer _ _ _).1, fun _ => (hanswer _ _ _).2⟩
      · exact ⟨hdies, fun hdead => (nomatch hdead)⟩
    · exact ⟨(hanswer _ _ _).1, fun _ => (hanswer _ _ _).2⟩
  · split
    · exact ⟨(hanswer _ _ _).1, fun _ => (hanswer _ _ _).2⟩
    · exact ⟨hdies, fun hdead => (nomatch hdead)⟩

/-- What the clerk does for a message keeps the books. -/
theorem Books.attend {x : Item} {xs : List Item} (h : c.Books key a p [])
    (hgood : c.Answered) (hp : p.inner = x :: xs) (codec : SnapshotCodec) (opens : Bool)
    (draws : List (List Bool)) :
    (c.attend codec opens draws x.msg).2.Answered ∧
      ((c.attend codec opens draws x.msg).2.alive = true →
        (c.attend codec opens draws x.msg).2.Books key a { p with inner := xs } []) := by
  have hother : ∀ (hkey : x.msg.answerKey = none) (_ : handedBy [x.msg] = [])
      (b : Bool) (s : StrStore) (f : Option Str) (l l' : List Labelled),
      Answered { c with alive := b, kvStore := s, snapshotFile := f, written := l, shipped := l' } ∧
        (b = true → Books { c with alive := b, kvStore := s, snapshotFile := f, written := l,
                                   shipped := l' } key a { p with inner := xs } []) := by
    intro hkey hhanded b s f l l'
    refine ⟨hgood.aside c.process b s f l l', fun _ => ?_⟩
    have hbooks := h.pop hp hkey
    rw [hhanded] at hbooks
    exact hbooks.aside c.process b s f l l'
  cases hm : x.msg with
  | kvOperationResponse m => exact h.respondTo hgood hp hm (draws.headD [])
  | applyCommitLogsRequest m =>
    have hbooks := h.pop hp (by rw [hm]; rfl)
    rw [hm, handedBy_request, ← List.append_nil m.indexed] at hbooks
    exact hbooks.applyLoop draws hgood
  | generateSnapshotRequest m =>
    rw [hm] at hother
    unfold RaftClerk.attend generateSnapshot
    dsimp only
    split
    · split
      · exact hother rfl rfl c.alive c.kvStore _ _ c.shipped
      · exact hother rfl rfl c.alive c.kvStore c.snapshotFile c.written c.shipped
    · exact hother rfl rfl false c.kvStore c.snapshotFile c.written c.shipped
  | applySnapshotRequest m =>
    rw [hm] at hother
    unfold RaftClerk.attend applySnapshot
    dsimp only
    split
    · split
      · split
        · exact hother rfl rfl c.alive _ _ c.written c.shipped
        · exact hother rfl rfl false c.kvStore _ c.written c.shipped
      · exact hother rfl rfl c.alive c.kvStore _ c.written c.shipped
    · exact hother rfl rfl c.alive c.kvStore c.snapshotFile c.written c.shipped
  | installSnapshotRequest m =>
    rw [hm] at hother
    unfold RaftClerk.attend sendInstallSnapshotRequest
    dsimp only
    split
    · split
      · exact hother rfl rfl c.alive c.kvStore c.snapshotFile c.written _
      · exact hother rfl rfl c.alive c.kvStore c.snapshotFile c.written c.shipped
    · exact hother rfl rfl c.alive c.kvStore c.snapshotFile c.written c.shipped
  | _ =>
    rw [hm] at hother
    exact hother rfl rfl c.alive c.kvStore c.snapshotFile c.written c.shipped

/-! ## The core takes a turn -/

/-- What the clerk notes when the core handles this. -/
def meets (c : RaftClerk) : Input → RaftClerk
  | .message (.kvOperationRequest m) => c.note m
  | _ => c

/-- The message comes from the wire, and an operation is the next one. -/
structure Fits (c : RaftClerk) (key : Nat → Str × Nat) (t : Input) : Prop where
  wire : ∀ m, t = .message (.appendEntriesRequest m) → ∀ e ∈ m.entries, e.core.entry = e
  takes : ∀ m, t = .message m → c.Takes m
  next : ∀ m, t = .message (.kvOperationRequest m) →
    c.handled < c.operations ∧ key c.handled = (m.uuid, m.seq)

section Turn

variable {t : Input} {w : Write} {m : KVOperationRequestMessage} {ne : RaftLogEntry}

theorem meets_quiet (h : ∀ m, t ≠ .message (.kvOperationRequest m)) : c.meets t = c := by
  unfold meets
  split
  · exact absurd rfl (h _)
  · rfl

theorem meets_read (h : c.process.raft.writeOf m = none) :
    c.meets (.message (.kvOperationRequest m)) =
      { c with handled := c.handled + 1, responding := c.responding ++ [c.handled] } := by
  rw [meets, note, h]

theorem meets_write (h : c.process.raft.writeOf m = some ne) :
    c.meets (.message (.kvOperationRequest m)) =
      { c with
        handled := c.handled + 1
        writes := { operation := c.handled
                    index := c.process.raft.nextPlace
                    entry := ne
                    since := c.process.handed.length } :: c.writes } := by
  rw [meets, note, h]

/-- The answers stay. -/
theorem meets_answers (c : RaftClerk) (t : Input) :
    (c.meets t).answers = c.answers ∧ (c.meets t).applied = c.applied := by
  unfold meets
  split
  · unfold note
    split <;> exact ⟨rfl, rfl⟩
  · exact ⟨rfl, rfl⟩

/-- There is at most one more write, at the end of the vector. -/
theorem meets_writes (c : RaftClerk) (t : Input) :
    (c.meets t).writes = c.writes ∨ ∃ m ne, t = .message (.kvOperationRequest m) ∧
      c.process.raft.writeOf m = some ne ∧ (c.meets t).writes =
        { operation := c.handled, index := c.process.raft.nextPlace, entry := ne,
          since := c.process.handed.length } :: c.writes := by
  by_cases hop : ∃ m, t = .message (.kvOperationRequest m)
  · obtain ⟨m, rfl⟩ := hop
    cases hw : c.process.raft.writeOf m with
    | none =>
      rw [meets_read hw]
      exact .inl rfl
    | some ne =>
      rw [meets_write hw]
      exact .inr ⟨m, ne, rfl, hw, rfl⟩
  · rw [meets_quiet fun m heq => hop ⟨m, heq⟩]
    exact .inl rfl

/-- An entry that the new write is not about stays as it was. -/
theorem Own.meets (h : c.Own k i e)
    (hnew : k < c.process.handed.length ∨ i < c.process.raft.nextPlace) :
    (c.meets t).Own k i e := by
  have hwrites := meets_writes c t
  unfold Own HasAnswered
  rw [(meets_answers c t).1]
  have hold : ∀ w ∈ c.writes, w ∈ (c.meets t).writes := by
    intro w hw
    rcases hwrites with heq | ⟨_, _, _, _, heq⟩
    · rwa [heq]
    · rw [heq]
      exact List.mem_cons_of_mem _ hw
  rcases h with ⟨hnamed, w, hw, hrest⟩ | ⟨hplain, hcopy⟩
  · exact .inl ⟨hnamed, w, hold w hw, hrest⟩
  · refine .inr ⟨hplain, fun w hw hsince hindex hsame => ?_⟩
    rcases hwrites with heq | ⟨_, _, _, _, heq⟩
    · exact hcopy w (heq ▸ hw) hsince hindex hsame
    · rw [heq] at hw
      rcases List.mem_cons.mp hw with rfl | hw
      · dsimp only at hsince hindex
        omega
      · exact hcopy w hw hsince hindex hsame

/-- Every write has been made by now, so it does not matter how late the entry comes. -/
theorem Own.later (h : c.Own k i e) (hs : ∀ w ∈ c.writes, w.since ≤ k) (k' : Nat) :
    c.Own k' i e := by
  rcases h with hown | ⟨hplain, hcopy⟩
  · exact .inl hown
  · exact .inr ⟨hplain, fun w hw _ hindex => hcopy w hw (hs w hw) hindex⟩

theorem named_of_writeOf (h : c.process.raft.writeOf m = some ne)
    (ht : c.Takes (.kvOperationRequest m)) :
    (ne.uuid, ne.sequenceId) = (m.uuid, m.seq) ∧ ne.Named ∧ ne.command ≠ [] := by
  have hkey := ht (by rw [h]; exact Option.some_ne_none _)
  unfold Raft.writeOf at h
  split at h
  case isFalse => cases h
  obtain ⟨text, htext, rfl⟩ := Option.map_eq_some_iff.mp h
  refine ⟨rfl, hkey, ?_⟩
  intro hempty
  have hempty : text = [] := hempty
  subst hempty
  unfold Raft.commandText at htext
  split at htext <;> cases htext

/-- An entry that is in the vector after the turn, above all that has been handed over. -/
theorem Books.comes (h : c.Books key a c.process []) (hf : c.Fits key t)
    (hi : a + c.process.handed.length < i) (hc : c.process.raft.Comes t i e) :
    (c.meets t).Own c.process.handed.length i e := by
  rcases hc with hold | rfl | ⟨m, ht, hacc, j, hplace, hj⟩ | ⟨m, ht, hw, hplace⟩
  · exact (h.log i e hi hold).meets (.inr (Raft.lt_nextPlace hold))
  · -- a padding entry has no key, and every write has a command
    refine .inr ⟨fun hnamed => hnamed.1 rfl, fun w hw _ _ heq => ?_⟩
    exfalso
    have hcommand : w.entry.command ≠ [] := by
      rcases meets_writes c t with hsame | ⟨m, ne, rfl, hne, hcons⟩
      · exact (h.wrote w (hsame ▸ hw)).command
      · rw [hcons] at hw
        rcases List.mem_cons.mp hw with rfl | hw
        · exact (named_of_writeOf hne (hf.takes _ rfl)).2.2
        · exact (h.wrote w hw).command
    exact hcommand (congrArg RaftLogEntry.command heq).symm
  · have hquiet : c.meets t = c := by
      apply meets_quiet
      rintro q rfl
      cases ht
    rw [hquiet]
    have hwire := hf.wire m ht e (List.mem_of_getElem? hj)
    refine .inr ⟨?_, ?_⟩
    · rw [← hwire]
      exact fun hnamed => hnamed.1 rfl
    · rintro w hw _ hindex rfl
      subst ht
      show c.HasAnswered w.operation
      have hmem : (i, w.entry.core.entry) ∈
          m.entries.mapIdx fun (k : Nat) e => (c.process.raft.nextPlace + k, e) := by
        apply List.mem_of_getElem? (i := j)
        rw [List.getElem?_mapIdx, hj, hplace]
        rfl
      exact hf.takes _ rfl hacc _ hmem w hw hindex rfl
  · subst ht
    rw [meets_write hw]
    refine .inl ⟨(named_of_writeOf hw (hf.takes _ rfl)).2.1, _, List.mem_cons_self, hplace.symm,
      rfl, ?_⟩
    intro hanswered
    exact absurd (h.answeredLt _ hanswered) (Nat.lt_irrefl _)

theorem Books.since (h : c.Books key a c.process []) :
    ∀ w ∈ (c.meets t).writes, w.since ≤ c.process.handed.length := by
  intro w hw
  rcases meets_writes c t with heq | ⟨_, _, _, _, heq⟩
  · exact (h.wrote w (heq ▸ hw)).since
  · rw [heq] at hw
    rcases List.mem_cons.mp hw with rfl | hw
    · exact Nat.le_refl _
    · exact (h.wrote w hw).since

/-- The entries of the vector and those handed over keep to their operations. -/
theorem Books.turned (h : c.Books key a c.process []) (hf : c.Fits key t)
    (ht : Turned c.process p' t)
    (hindices : p'.handed.map (·.1) = applyWindow a (a + p'.handed.length)) :
    (∀ i e, a + p'.handed.length < i → p'.raft.entryAt i = some e →
      (c.meets t).Own p'.handed.length i e) ∧
    ∀ k x, c.applied.length ≤ k → p'.handed[k]? = some x → (c.meets t).Own k x.1 x.2 := by
  have hlength : p'.handed.length = c.process.handed.length +
      (handedBy (c.process.raft.react t).pushed).length := by
    rw [ht.handed, List.length_append]
  constructor
  · intro i e hi he
    rw [ht.raft] at he
    have hcomes := Raft.react_comes ht.returns i e he
    exact (h.comes hf (by omega) hcomes).later h.since _
  · intro k x hk hx
    by_cases hlt : k < c.process.handed.length
    · rw [ht.handed, List.getElem?_append_left hlt] at hx
      exact (h.under k x hk hx).meets (.inl hlt)
    · have hindex : x.1 = a + 1 + k := by
        have hmap : (p'.handed.map (·.1))[k]? = some x.1 := by
          rw [List.getElem?_map, hx]
          rfl
        rw [hindices] at hmap
        exact (Raft.applyWindow_getElem? hmap).1
      have hnew : x ∈ handedBy (c.process.raft.react t).pushed := by
        rw [ht.handed, List.getElem?_append_right (Nat.le_of_not_lt hlt)] at hx
        exact List.mem_of_getElem? hx
      have hentry := Raft.entryAt_of_getLogAt (react_handed _ _ x hnew)
      have hcomes := Raft.react_comes ht.returns x.1 x.2 hentry
      exact (h.comes hf (by omega) hcomes).later h.since _

theorem Books.splitTurned (h : c.Books key a c.process []) (ht : Turned c.process p' t) :
    c.applied ++ ([] ++ handedBy (p'.inner.map (·.msg))) = p'.handed := by
  rw [ht.inner, ht.handed, handedBy_append, ← h.split]
  simp only [List.nil_append, List.append_assoc]

theorem Books.answeringTurned (h : c.Books key a c.process []) (ht : Turned c.process p' t) :
    p'.inner.filterMap (·.msg.answerKey) =
      c.responding.map key ++ (c.process.raft.react t).pushed.filterMap RaftMessage.answerKey := by
  have hmap : ∀ l : List Item, l.filterMap (·.msg.answerKey) =
      (l.map (·.msg)).filterMap RaftMessage.answerKey := by
    intro l
    rw [List.filterMap_map]
    rfl
  rw [hmap, ht.inner, List.filterMap_append, ← hmap, h.answering]

theorem Wrote.grow (h : c.Wrote key k w) {k' : Nat} (hk : k ≤ k') (hc : c.handled ≤ c'.handled) :
    c'.Wrote key k' w where
  operation := Nat.lt_of_lt_of_le h.operation hc
  key := h.key
  named := h.named
  command := h.command
  since := Nat.le_trans h.since hk

/-- The core takes something else than an operation. -/
theorem Books.quiet (h : c.Books key a c.process []) (hf : c.Fits key t)
    (hq : ∀ m, t ≠ .message (.kvOperationRequest m)) (ht : Turned c.process p' t)
    (hindices : p'.handed.map (·.1) = applyWindow a (a + p'.handed.length))
    (hwaiting : p'.outter.filterMap (·.msg.operationKey) =
      c.process.outter.filterMap (·.msg.operationKey))
    (hwire : ∀ x ∈ p'.outter, x ∈ c.process.outter) : (c.meets t).Books key a p' [] := by
  have hturned := h.turned hf ht hindices
  rw [meets_quiet hq] at hturned ⊢
  constructor
  · exact h.counted
  · rw [hwaiting]
    exact h.waiting
  · exact fun x hx => h.wire x (hwire x hx)
  · rw [h.answeringTurned ht, Raft.answerKeys_eq_nil fun m heq => absurd heq (hq m),
      List.append_nil]
  · exact h.responding
  · exact h.respond
  · exact h.sorted
  · exact fun w hw => (h.wrote w hw).grow ht.grows (Nat.le_refl _)
  · exact h.answeredLt
  · exact h.registered
  · exact h.reused
  · exact h.splitTurned ht
  · exact hindices
  · exact hturned.1
  · exact hturned.2

/-- The keys of the operations behind the first that waits. -/
theorem Books.waiting_tail (h : c.Books key a p todo) {x : Item} {xs : List Item}
    (hp : p.outter = x :: xs) (hx : x.msg = .kvOperationRequest m) :
    (c.handled < c.operations ∧ key c.handled = (m.uuid, m.seq)) ∧
      xs.filterMap (·.msg.operationKey) =
        (List.range (c.operations - (c.handled + 1))).map fun k => key (c.handled + 1 + k) := by
  have hwaiting := h.waiting
  rw [hp, List.filterMap_cons_some (b := (m.uuid, m.seq)) (by rw [hx]; rfl)] at hwaiting
  cases hd : c.operations - c.handled with
  | zero =>
    rw [hd] at hwaiting
    cases hwaiting
  | succ d =>
    rw [hd, List.range_succ_eq_map, List.map_cons, List.map_map] at hwaiting
    obtain ⟨hkey, hrest⟩ := List.cons.inj hwaiting
    refine ⟨⟨by omega, hkey.symm⟩, ?_⟩
    rw [hrest, show c.operations - (c.handled + 1) = d by omega]
    apply List.map_congr_left
    intro k _
    show key (c.handled + (k + 1)) = key (c.handled + 1 + k)
    rw [Nat.add_assoc, Nat.add_comm 1 k]

/-- The core takes an operation that it answers at once. -/
theorem Books.read (h : c.Books key a c.process []) (hf : c.Fits key t)
    (htm : t = .message (.kvOperationRequest m)) (hw : c.process.raft.writeOf m = none)
    {x : Item} {xs : List Item} (hp : c.process.outter = x :: xs)
    (hx : x.msg = .kvOperationRequest m) (ht : Turned c.process p' t) (hout : p'.outter = xs)
    (hindices : p'.handed.map (·.1) = applyWindow a (a + p'.handed.length)) :
    (c.meets t).Books key a p' [] := by
  obtain ⟨⟨hlt, hkey⟩, hrest⟩ := h.waiting_tail hp hx
  have hturned := h.turned hf ht hindices
  subst htm
  rw [meets_read hw] at hturned ⊢
  constructor
  · exact hlt
  · rw [hout]
    exact hrest
  · rw [hout]
    exact fun y hy => h.wire y (hp ▸ List.mem_cons_of_mem _ hy)
  · rw [h.answeringTurned ht, Raft.answerKeys_of_read hw, ← hkey]
    simp
  · rw [← List.concat_eq_append]
    exact List.Nodup.concat (fun hn => Nat.lt_irrefl _ (h.respond _ hn).1) h.responding
  · intro n hn
    rcases List.mem_append.mp hn with hn | hn
    · obtain ⟨hlt, hopen, hne⟩ := h.respond n hn
      exact ⟨Nat.lt_succ_of_lt hlt, hopen, hne⟩
    · rw [List.mem_singleton.mp hn]
      refine ⟨Nat.lt_succ_self _, fun ha => Nat.lt_irrefl _ (h.answeredLt _ ha), ?_⟩
      intro w hw heq
      exact Nat.lt_irrefl _ (heq ▸ (h.wrote w hw).operation)
  · exact h.sorted
  · exact fun w hw => (h.wrote w hw).grow ht.grows (Nat.le_succ _)
  · exact fun n hn => Nat.lt_succ_of_lt (h.answeredLt n hn)
  · exact h.registered
  · exact h.reused
  · exact h.splitTurned ht
  · exact hindices
  · exact hturned.1
  · exact hturned.2

/-- The core takes an operation and makes an entry of it. -/
theorem Books.write (h : c.Books key a c.process []) (hf : c.Fits key t)
    (htm : t = .message (.kvOperationRequest m)) (hw : c.process.raft.writeOf m = some ne)
    {x : Item} {xs : List Item} (hp : c.process.outter = x :: xs)
    (hx : x.msg = .kvOperationRequest m) (ht : Turned c.process p' t) (hout : p'.outter = xs)
    (hindices : p'.handed.map (·.1) = applyWindow a (a + p'.handed.length)) :
    (c.meets t).Books key a p' [] := by
  obtain ⟨⟨hlt, hkey⟩, hrest⟩ := h.waiting_tail hp hx
  have hturned := h.turned hf ht hindices
  subst htm
  obtain ⟨hsame, hnamed, hcommand⟩ := named_of_writeOf hw (hf.takes _ rfl)
  have hquiet : (c.process.raft.react (.message (.kvOperationRequest m))).pushed.filterMap
      RaftMessage.answerKey = [] := by
    apply Raft.answerKeys_eq_nil
    intro q hq hnone
    cases hq
    rw [hw] at hnone
    cases hnone
  rw [meets_write hw] at hturned ⊢
  constructor
  · exact hlt
  · rw [hout]
    exact hrest
  · rw [hout]
    exact fun y hy => h.wire y (hp ▸ List.mem_cons_of_mem _ hy)
  · rw [h.answeringTurned ht, hquiet, List.append_nil]
  · exact h.responding
  · intro n hn
    obtain ⟨hlt, hopen, hne⟩ := h.respond n hn
    refine ⟨Nat.lt_succ_of_lt hlt, hopen, fun w hw => ?_⟩
    rcases List.mem_cons.mp hw with rfl | hw
    · exact Nat.ne_of_gt hlt
    · exact hne w hw
  · apply List.pairwise_cons.mpr
    exact ⟨fun w hw => (h.wrote w hw).operation, h.sorted⟩
  · intro w hw
    rcases List.mem_cons.mp hw with rfl | hw
    · exact ⟨Nat.lt_succ_self _, hkey.trans hsame.symm, hnamed, hcommand, ht.grows⟩
    · exact (h.wrote w hw).grow ht.grows (Nat.le_succ _)
  · exact fun n hn => Nat.lt_succ_of_lt (h.answeredLt n hn)
  · exact h.registered
  · exact h.reused
  · exact h.splitTurned ht
  · exact hindices
  · exact hturned.1
  · exact hturned.2

/-- An operation arrives under a key that is not in use. -/
theorem Books.arrive (h : c.Books key a p []) (hfree : c.pendingKvRequests (m.uuid, m.seq) = none) :
    (c.register m).Books (Function.update key c.operations (m.uuid, m.seq)) a
      { p with outter := p.outter ++ [{ msg := .kvOperationRequest m }] } [] := by
  have hsame : ∀ n < c.operations,
      Function.update key c.operations (m.uuid, m.seq) n = key n :=
    fun n hn => Function.update_of_ne (Nat.ne_of_lt hn) _ _
  have hused : ∀ n < c.operations, ¬ c.HasAnswered n → key n ≠ (m.uuid, m.seq) := by
    intro n hn hopen heq
    rw [← heq, h.registered n hn hopen] at hfree
    cases hfree
  constructor
  · exact Nat.le_succ_of_le h.counted
  · have hcounted := h.counted
    show (p.outter ++ [_]).filterMap _ = (List.range (c.operations + 1 - c.handled)).map _
    rw [show c.operations + 1 - c.handled = (c.operations - c.handled) + 1 by omega,
      List.range_succ, List.map_append, List.filterMap_append, h.waiting]
    congr 1
    · apply List.map_congr_left
      intro k hk
      have := List.mem_range.mp hk
      exact (hsame _ (by omega)).symm
    · show [(m.uuid, m.seq)] = [Function.update key c.operations (m.uuid, m.seq)
        (c.handled + (c.operations - c.handled))]
      rw [show c.handled + (c.operations - c.handled) = c.operations by omega]
      rw [Function.update_self]
  · intro x hx q hq
    rcases List.mem_append.mp hx with hx | hx
    · exact h.wire x hx q hq
    · rw [List.mem_singleton.mp hx] at hq
      cases hq
  · show p.inner.filterMap (·.msg.answerKey) = c.responding.map _
    rw [h.answering]
    apply List.map_congr_left
    intro n hn
    exact (hsame n (Nat.lt_of_lt_of_le (h.respond n hn).1 h.counted)).symm
  · exact h.responding
  · exact h.respond
  · exact h.sorted
  · intro w hw
    obtain ⟨hop, hkey, hnamed, hcommand, hsince⟩ := h.wrote w hw
    exact ⟨hop, (hsame _ (Nat.lt_of_lt_of_le hop h.counted)).trans hkey, hnamed, hcommand, hsince⟩
  · exact h.answeredLt
  · intro n hn hopen
    rcases Nat.lt_succ_iff_lt_or_eq.mp hn with hn | rfl
    · show Function.update c.pendingKvRequests (m.uuid, m.seq) (some c.operations) _ = _
      rw [hsame n hn, Function.update_of_ne (hused n hn hopen)]
      exact h.registered n hn hopen
    · show Function.update c.pendingKvRequests (m.uuid, m.seq) (some c.operations) _ = _
      rw [Function.update_self, Function.update_self]
  · intro m' hm' n hn heq
    rcases Nat.lt_succ_iff_lt_or_eq.mp hm' with hm' | rfl
    · rw [hsame m' hm', hsame n (Nat.lt_trans hn hm')] at heq
      exact h.reused m' hm' n hn heq
    · rw [Function.update_self, hsame n hn] at heq
      by_contra hopen
      exact hused n hn hopen heq
  · exact h.split
  · exact h.indices
  · exact h.log
  · exact h.under

end Turn

/-! ## Runs -/

/-- What holds in an orderly run: the books are kept while the process runs, and the answers
are right also when it has ended. -/
structure Kept (id : Int) (ids : List Int) (file : Option RaftPersistData) (c : RaftClerk) :
    Prop where
  reaches : c.process.Reaches (Process.Obeys CommitsForward) id ids file
  answered : c.Answered
  books : c.alive = true → c.process.alive = true →
    ∃ key, c.Books key (restart id ids file).lastIncludedIndex c.process []


theorem Answered.meets (h : c.Answered) (hlength : c.applied.length ≤ c.process.handed.length)
    (t : Input) : (c.meets t).Answered := by
  obtain ⟨hanswers, happlied⟩ := meets_answers c t
  have hmisses : (c.meets t).misses = c.misses := by
    unfold RaftClerk.meets
    split
    · unfold note
      split <;> rfl
    · rfl
  have hhas : ∀ n, c.HasAnswered n → (c.meets t).HasAnswered n := by
    intro n hn
    unfold HasAnswered
    rwa [hanswers]
  constructor
  · rw [hanswers]
    exact h.once
  · rw [hanswers]
    exact h.own
  · rw [hmisses]
    exact h.found
  · intro w hw e he hcopy
    rw [happlied] at he
    rcases meets_writes c t with heq | ⟨_, _, _, _, heq⟩
    · exact hhas _ (h.applied w (heq ▸ hw) e he hcopy)
    · rw [heq] at hw
      rcases List.mem_cons.mp hw with rfl | hw
      · rw [List.drop_eq_nil_of_le hlength] at he
        exact absurd he List.not_mem_nil
      · exact hhas _ (h.applied w hw e he hcopy)

theorem observe_handle {x : Item} {xs : List Item} (hp : c.process.outter = x :: xs) :
    c.observe .handle = c.meets (.message x.msg) := by
  obtain ⟨msg, cause⟩ := x
  unfold observe RaftClerk.meets
  rw [hp]
  cases msg <;> rfl

theorem Books.fits {x : Item} {xs : List Item} (h : c.Books key a c.process [])
    (hp : c.process.outter = x :: xs) (ho : c.Admits .handle) : c.Fits key (.message x.msg) where
  wire := by
    intro m hm
    exact h.wire x (hp ▸ List.mem_cons_self) m (Input.message.inj hm)
  takes := by
    intro m hm
    cases hm
    apply ho x
    rw [hp]
    rfl
  next := by
    intro m hm
    exact (h.waiting_tail hp (Input.message.inj hm)).1

/-- The core takes the next message. -/
theorem Books.handle {x : Item} {xs : List Item} (h : c.Books key a c.process [])
    (hp : c.process.outter = x :: xs) (ho : c.Admits .handle) {cause : Option Nat}
    (hp' : p' = { c.process with outter := xs }.react (.message x.msg) cause)
    (halive : p'.alive = true)
    (hindices : p'.handed.map (·.1) = applyWindow a (a + p'.handed.length)) :
    (c.meets (.message x.msg)).Books key a p' [] := by
  have hfits := h.fits hp ho
  have ht : Turned c.process p' (.message x.msg) := by
    rw [hp'] at halive ⊢
    exact turned_react c.process xs _ cause halive
  have hout : p'.outter = xs := by
    rw [hp']
    rfl
  by_cases hop : ∃ m, x.msg = .kvOperationRequest m
  · obtain ⟨m, hm⟩ := hop
    cases hw : c.process.raft.writeOf m with
    | none => exact h.read hfits (congrArg _ hm) hw hp hm ht hout hindices
    | some ne => exact h.write hfits (congrArg _ hm) hw hp hm ht hout hindices
  · have hkey : x.msg.operationKey = none := by
      unfold RaftMessage.operationKey
      split
      · exact absurd ⟨_, ‹_›⟩ hop
      · rfl
    apply h.quiet hfits (fun m hm => hop ⟨m, Input.message.inj hm⟩) ht hindices
    · rw [hout, hp, List.filterMap_cons_none (f := fun y : Item => y.msg.operationKey) hkey]
    · intro y hy
      rw [hp]
      exact List.mem_cons_of_mem _ (hout ▸ hy)

/-- A message that is no operation is put behind the channel of the core. -/
theorem Books.receive {x : Item} (h : c.Books key a p todo) (hraft : p'.raft = p.raft)
    (hhistory : p'.history = p.history) (hinner : p'.inner = p.inner)
    (hout : p'.outter = p.outter ++ [x]) (hkey : x.msg.operationKey = none)
    (hwire : ∀ m, x.msg = .appendEntriesRequest m → ∀ e ∈ m.entries, e.core.entry = e) :
    c.Books key a p' todo := by
  apply h.congr hraft hhistory hinner
  · rw [hout, List.filterMap_append, List.filterMap_cons_none (f := fun y : Item =>
      y.msg.operationKey) hkey]
    exact List.append_nil _
  · intro y hy
    rw [hout] at hy
    rcases List.mem_append.mp hy with hy | hy
    · exact h.wire y hy
    · rw [List.mem_singleton.mp hy]
      exact hwire

theorem Books.serve (h : c.Books key a p todo) (b : Bool) (x : Item) :
    c.Books key a (p.serve b x) todo := by
  unfold Process.serve
  split
  · exact h.congr rfl rfl rfl rfl h.wire
  · cases hm : clerkAnswer b x.msg with
    | none => exact h
    | some m =>
      have hquiet : m.operationKey = none ∧ ∀ q, m ≠ .appendEntriesRequest q := by
        cases hx : x.msg <;> rw [hx] at hm <;> cases hm <;> exact ⟨rfl, nofun⟩
      exact h.receive (x := { x with msg := m }) rfl rfl rfl rfl hquiet.1
        fun q hq => absurd hq (hquiet.2 q)

theorem fromWire_entries {m : RaftMessage} {q : RaftAppendEntriesRequestMessage} {n : Nat}
    (h : m.fromWire.withSeq n = some (.appendEntriesRequest q)) :
    ∀ e ∈ q.entries, e.core.entry = e := by
  cases m with
  | appendEntriesRequest m =>
    cases h
    intro e he
    obtain ⟨e', _, rfl⟩ := List.mem_map.mp he
    rfl
  | _ => cases h

theorem withSeq_operationKey {m m' : RaftMessage} {n : Nat} (h : m.withSeq n = some m') :
    m'.operationKey = none := by
  cases m <;> cases h <;> rfl

theorem isPeerResponse_quiet {m : RaftMessage} (h : m.isPeerResponse = true) :
    m.operationKey = none ∧ ∀ q, m ≠ .appendEntriesRequest q := by
  cases m with
  | requestVoteResponse _ => exact ⟨rfl, nofun⟩
  | appendEntriesResponse _ => exact ⟨rfl, nofun⟩
  | installSnapshotResponse _ => exact ⟨rfl, nofun⟩
  | _ => cases h

/-- The core's timers bring no message. -/
theorem Books.timer (h : c.Books key a c.process []) (ht : ∀ m, t ≠ .message m)
    (hp' : p' = c.process.react t none) (halive : p'.alive = true)
    (hindices : p'.handed.map (·.1) = applyWindow a (a + p'.handed.length)) :
    c.Books key a p' [] := by
  have hturned : Turned c.process p' t := by
    rw [hp'] at halive ⊢
    exact turned_react c.process c.process.outter t none halive
  have hfits : c.Fits key t :=
    ⟨fun m heq => absurd heq (ht _), fun m heq => absurd heq (ht _), fun m heq => absurd heq (ht _)⟩
  have hbooks := h.quiet hfits (fun m => ht _) hturned hindices (by rw [hp']; rfl)
    (fun x hx => by rw [hp'] at hx; exact hx)
  rwa [meets_quiet fun m => ht _] at hbooks

/-- Every event keeps the books. -/
theorem Books.event (h : c.Books key a c.process []) (hgood : c.Answered) {ev : ClerkEvent}
    (ho : c.Admits ev) (codec : SnapshotCodec) {b : Bool}
    (hp : c.process.stepAlive (ev.event b) = some p')
    (hindices : p'.handed.map (·.1) = applyWindow a (a + p'.handed.length)) :
    (c.work codec ev).2.Answered ∧ ((c.work codec ev).2.alive = true → p'.alive = true →
      ∃ key', (c.work codec ev).2.Books key' a p' []) := by
  cases ev with
  | electionTimeout =>
    refine ⟨hgood, fun _ halive => ⟨key, ?_⟩⟩
    exact h.timer (t := .electionTimeout) nofun (Option.some.inj hp).symm halive hindices
  | heartbeatTimeout =>
    refine ⟨hgood, fun _ halive => ⟨key, ?_⟩⟩
    exact h.timer (t := .heartbeatTimeout) nofun (Option.some.inj hp).symm halive hindices
  | handle =>
    cases hout : c.process.outter with
    | nil => simp [ClerkEvent.event, Process.stepAlive, hout] at hp
    | cons x xs =>
      simp only [ClerkEvent.event, Process.stepAlive, hout, Option.some.injEq] at hp
      show (c.observe .handle).Answered ∧ _
      have hlength : c.applied.length ≤ c.process.handed.length := by
        rw [← h.split, List.length_append]
        exact Nat.le_add_right _ _
      refine ⟨?_, fun _ halive => ⟨key, ?_⟩⟩
      · rw [observe_handle hout]
        exact hgood.meets hlength _
      · show (c.observe .handle).Books key a p' []
        rw [observe_handle hout]
        exact h.handle hout ho hp.symm halive hindices
  | request conn m =>
    obtain ⟨m', hm', rfl⟩ := Option.map_eq_some_iff.mp hp
    refine ⟨hgood, fun _ _ => ⟨key, ?_⟩⟩
    have hwire : ∀ q, m' = .appendEntriesRequest q → ∀ e ∈ q.entries, e.core.entry = e := by
      rintro q rfl
      exact fromWire_entries hm'
    exact h.receive (x := { msg := m', cause := some c.process.requests }) rfl rfl rfl rfl
      (withSeq_operationKey hm') hwire
  | lostRequest conn =>
    obtain rfl := Option.some.inj hp
    exact ⟨hgood, fun _ _ => ⟨key, h.congr rfl rfl rfl rfl h.wire⟩⟩
  | response m =>
    simp only [ClerkEvent.event, Process.stepAlive] at hp
    split at hp
    case isFalse => cases hp
    rename_i hm
    obtain rfl := Option.some.inj hp
    have hquiet := isPeerResponse_quiet hm
    refine ⟨hgood, fun _ _ => ⟨key, ?_⟩⟩
    exact h.receive (x := { msg := m }) rfl rfl rfl rfl hquiet.1
      fun q hq => absurd hq (hquiet.2 q)
  | operation m =>
    obtain rfl := Option.some.inj hp
    exact ⟨⟨hgood.once, hgood.own, hgood.found, hgood.applied⟩, fun _ _ => ⟨_, h.arrive ho⟩⟩
  | clerk opens draws =>
    cases hin : c.process.inner with
    | nil => simp [ClerkEvent.event, Process.stepAlive, hin] at hp
    | cons x xs =>
      simp only [ClerkEvent.event, Process.stepAlive, hin, Option.some.injEq] at hp
      have hattend := h.attend hgood hin codec opens draws
      have hwork : c.work codec (.clerk opens draws) = c.attend codec opens draws x.msg := by
        unfold work
        rw [hin]
      rw [hwork]
      refine ⟨hattend.1, fun halive _ => ⟨key, ?_⟩⟩
      rw [← hp]
      exact (hattend.2 halive).serve _ _

theorem Kept.step {id : Int} {ids : List Int} {file : Option RaftPersistData}
    {codec : SnapshotCodec} {ev : ClerkEvent} (h : Kept id ids file c) (ho : c.Orderly ev)
    (hs : c.step codec ev = some c') : Kept id ids file c' := by
  obtain ⟨halive, hpalive, p', hp', rfl⟩ := step_some hs
  obtain ⟨key, hbooks⟩ := h.books halive hpalive
  have hreaches := reaches_stepAlive h.reaches hpalive ho.forward hp'
  have hindices := (handsOver_of_commitsForward id ids file p' hreaches).indices
  obtain ⟨hgood, hkept⟩ := hbooks.event h.answered ho.admits codec hp' hindices
  refine ⟨hreaches, ⟨hgood.once, hgood.own, hgood.found, hgood.applied⟩, ?_⟩
  intro halive' hpalive'
  obtain ⟨key', hbooks'⟩ := hkept halive' hpalive'
  exact ⟨key', hbooks'.aside p' _ _ _ _ _⟩

/-- A fresh node, or one whose log comes from a file, has no entry with a key. -/
theorem restart_nameless (id : Int) (ids : List Int) (file : Option RaftPersistData)
    (h : (restart id ids file).entryAt i = some e) : ¬ e.Named := by
  obtain ⟨k, _, hk⟩ := Raft.entryAt_iff.mp h
  have hmem := List.mem_of_getElem? hk
  cases file with
  | none => exact absurd hmem List.not_mem_nil
  | some d =>
    have hmem : e ∈ d.entries.map RaftPersistLogEntry.entry := hmem
    obtain ⟨e', _, rfl⟩ := List.mem_map.mp hmem
    exact fun hnamed => hnamed.1 rfl

theorem not_hasAnswered (h : c.answers = []) (n : Nat) : ¬ c.HasAnswered n := by
  rintro ⟨x, hx, _⟩
  rw [h] at hx
  exact absurd hx List.not_mem_nil

theorem kept_init {codec : SnapshotCodec} {draws : List (List Bool)} {id : Int} {ids : List Int}
    {addresses : List Str} {file : Option RaftPersistData} {snapshotFile : Option Str}
    (h : init codec draws id ids addresses file snapshotFile = some c) : Kept id ids file c := by
  obtain ⟨s, _, rfl⟩ := Option.map_eq_some_iff.mp h
  refine ⟨⟨[], .nil _⟩, ⟨List.nodup_nil, nofun, rfl, nofun⟩, fun _ _ => ⟨fun _ => ([], 0), ?_⟩⟩
  constructor
  · exact Nat.le_refl _
  · rfl
  · exact nofun
  · rfl
  · exact List.nodup_nil
  · exact nofun
  · exact List.Pairwise.nil
  · exact nofun
  · exact fun n hn => absurd hn (not_hasAnswered rfl n)
  · exact nofun
  · exact nofun
  · rfl
  · show [] = applyWindow _ (_ + 0)
    rw [Int.add_zero, applyWindow_self]
  · exact fun i e _ he => .inr ⟨restart_nameless id ids file he, nofun⟩
  · intro k x _ hx
    cases hx

/-- Every operation is answered at most once and through its own closure, every lookup finds
a closure, and a write is answered once its entry has been applied, in every orderly run. -/
theorem answered_of_orderly (codec : SnapshotCodec) (draws : List (List Bool)) (id : Int)
    (ids : List Int) (addresses : List Str) (file : Option RaftPersistData)
    (snapshotFile : Option Str) (c : RaftClerk)
    (hr : Reaches Orderly codec draws id ids addresses file snapshotFile c) : c.Answered := by
  obtain ⟨c₀, es, hinit, hr⟩ := hr
  have hkept : Kept id ids file c := by
    apply hr.invariant _ (kept_init hinit)
    intro s ev t hs ho hst
    exact hs.step ho hst
  exact hkept.answered

/-- A snapshot is a text without a meaning here. -/
def noSnapshots : SnapshotCodec where
  serialize := fun _ => []
  parse := fun _ => none

/-- A node becomes the leader and takes a write and a read of one client. -/
def clientServed : List ClerkEvent :=
  [.electionTimeout, .response (.requestVoteResponse { term := 1, voteGranted := true }), .handle,
    .operation { uuid := ['u'], seq := 1, opType := .put, key := ['a'], value := ['1'] }, .handle,
    .operation { uuid := ['u'], seq := 2, opType := .get, key := ['a'], value := [] }, .handle] ++
  -- the requests of the election and the two rounds of entries come before the response
  List.replicate 7 (.clerk true []) ++
  [.response (.appendEntriesResponse
      { term := 1, fromId := 1, success := true, lastLogIndex := 1 }),
    .handle, .clerk true []]

theorem answered_two :
    ∃ c, Reaches Orderly noSnapshots [] 0 [0, 1, 2] [] none none c ∧
      c.answers.map (·.closure) = [1, 0] ∧ c.Answered := by
  obtain ⟨c, hr, hq⟩ := Reaches.of_exec Orderly noSnapshots [] 0 [0, 1, 2] [] none none
    clientServed (fun c => decide (c.answers.map (·.closure) = [1, 0])) (by decide +kernel)
  exact ⟨c, hr, of_decide_eq_true hq,
    answered_of_orderly noSnapshots [] 0 [0, 1, 2] [] none none c hr⟩

/-- Two clients without a uuid read on the leader, each for the first time. -/
def readsCollide : List ClerkEvent :=
  [.electionTimeout, .response (.requestVoteResponse { term := 1, voteGranted := true }), .handle,
    .operation { uuid := [], seq := 1, opType := .get, key := ['a'], value := [] },
    .operation { uuid := [], seq := 1, opType := .get, key := ['b'], value := [] },
    .handle, .handle] ++
  List.replicate 6 (.clerk true [])

theorem answer_misrouted :
    ¬ ∀ (codec : SnapshotCodec) (draws : List (List Bool)) (id : Int) (ids : List Int)
      (addresses : List Str) (file : Option RaftPersistData) (snapshotFile : Option Str)
      (c : RaftClerk),
      Reaches anyEvent codec draws id ids addresses file snapshotFile c → c.Answered := by
  intro h
  obtain ⟨c, hr, hq⟩ := Reaches.of_exec anyEvent noSnapshots [] 0 [0, 1, 2] [] none none
    readsCollide (fun c => decide (c.answers.map (·.closure) = [1] ∧
      c.answers.map (·.cause) = [some 0] ∧ c.misses = [([], 1)])) (by decide +kernel)
  have hmisses := (of_decide_eq_true hq).2.2
  rw [(h noSnapshots [] 0 [0, 1, 2] [] none none c hr).found] at hmisses
  cases hmisses

end RaftClerk

end WWRaftKV
