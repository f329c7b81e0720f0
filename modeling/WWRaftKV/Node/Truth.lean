/-
What a leader tells its peers about its log.

The request to a peer names the entry in front of the peer's next index, and a write is sent
with all entries behind it.  That is the leader's own log as long as the next index stays
within it: no peer reports a longer log, no failure is counted below the match index, and an
installed snapshot ends at the node's own snapshot point.
-/
import WWRaftKV.Core.Emit
import WWRaftKV.Core.Peers
import WWRaftKV.Node.Bounds

namespace WWRaftKV

open Raft

namespace Raft

/-- The node's own entry at index `j` has term `t`.  The entry at the snapshot point is in
the snapshot, and the node knows its term. -/
def OwnTerm (r : Raft) (j : Int) (t : Nat) : Prop :=
  (j = r.lastIncludedIndex ∧ t = r.lastIncludedTerm) ∨ ∃ e, r.getLogAt j = some e ∧ e.term = t

/-- The entries are those of the node's log behind index `j`. -/
def SuffixBehind (r : Raft) (j : Int) (es : List RaftLogEntry) : Prop :=
  ∀ k : Nat, es[k]? = r.getLogAt (j + 1 + k)

/-- A request describes the log of the node. -/
structure Describes (r : Raft) (isHeartbeat : Bool) (m : RaftAppendEntriesRequestMessage) :
    Prop where
  prev : (m.prevLogIndex = 0 ∧ m.prevLogTerm = 0) ∨ r.OwnTerm m.prevLogIndex m.prevLogTerm
  entries : isHeartbeat = false → r.SuffixBehind m.prevLogIndex m.entries

/-- The requests of a step describe the log that the node has at its end. -/
def TellsTruth (r : Raft) (i : Input) : Prop :=
  ∀ m, .appendEntriesRequest m ∈ (r.react i).pushed →
    (r.react i).raft.Describes (isHeartbeat i) m

/-- The next index of every other peer is behind its match index, and not beyond the log. -/
def PeersWithin (r : Raft) : Prop :=
  r.role = .leader → ∀ p ∈ r.peers, p.id ≠ r.id →
    p.matchIndex < p.nextIndex ∧ p.nextIndex ≤ r.lastLogIndex + 1

/-- The answer of another peer reports no longer log than the leader's, and a failure does
not take the next index of the peer back to its match index. -/
def AnswersWithin (r : Raft) : Input → Prop
  | .message (.appendEntriesResponse m) => r.role = .leader → m.term ≤ r.term →
    m.fromId ≠ r.id → ∀ p ∈ r.findPeer m.fromId,
      if m.success then m.lastLogIndex ≤ r.lastLogIndex
      else p.nextIndex > 1 → p.matchIndex < p.nextIndex - 1
  | _ => True

/-- The steps after which a leader still tells the truth. -/
structure KeepsTruth (r : Raft) (i : Input) : Prop where
  install : InstallsAtPoint r i
  answer : AnswersWithin r i

section Decide

variable (r : Raft) (i : Input)

instance : Decidable (AnswersWithin r i) := by
  induction i using Input.casesOn with
  | message m =>
    induction m using RaftMessage.casesOn <;> unfold AnswersWithin <;> infer_instance
  | _ => exact .isTrue trivial

instance : Decidable (KeepsTruth r i) :=
  decidable_of_iff (InstallsAtPoint r i ∧ AnswersWithin r i)
    ⟨fun h => ⟨h.1, h.2⟩, fun h => ⟨h.install, h.answer⟩⟩

end Decide

/-! ## The log of a leader -/

section Log

variable {r s : Raft} {j : Int} {t : Nat}

/-- Under the books every index that the request to a peer can name has a term of its own. -/
theorem Booked.ownTerm (h : r.Booked) (hj : r.baseIndex - 1 ≤ j) (hl : j ≤ r.lastLogIndex)
    (ht : r.getTermAt j = some t) : r.OwnTerm j t := by
  have hb := h.base
  by_cases hp : j = r.lastIncludedIndex
  · rw [Raft.getTermAt, if_pos hp] at ht
    exact .inl ⟨hp, (Option.some.inj ht).symm⟩
  · rw [Raft.getTermAt, if_neg hp, if_neg (by omega)] at ht
    obtain ⟨e, he, het⟩ := Option.map_eq_some_iff.mp ht
    refine .inr ⟨e, ?_, het⟩
    rw [Raft.getLogAt, if_neg (by omega)]
    exact he

theorem Whole.suffixBehind (h : r.Whole) (hj : r.baseIndex ≤ j + 1) :
    r.SuffixBehind j (r.getLogFrom (j + 1)) := by
  unfold Whole at h
  intro k
  unfold Raft.getLogFrom Raft.getLogAt Raft.logsAt
  by_cases hl : j + 1 > r.lastLogIndex
  · rw [if_pos (.inr hl), if_pos (.inr (by omega))]
    rfl
  · rw [if_neg (by omega), List.getElem?_drop]
    by_cases hk : j + 1 + k > r.lastLogIndex
    · rw [if_pos (.inr hk)]
      exact List.getElem?_eq_none (by omega)
    · rw [if_neg (by omega), if_neg (by omega)]
      congr 1
      omega

theorem OwnTerm.of_eq (h : r.OwnTerm j t) (hl : s.SameLog r)
    (hi : s.lastIncludedIndex = r.lastIncludedIndex)
    (ht : s.lastIncludedTerm = r.lastIncludedTerm) : s.OwnTerm j t := by
  unfold OwnTerm at *
  rw [hi, ht, hl.getLogAt]
  exact h

theorem SuffixBehind.of_sameLog {es : List RaftLogEntry} (h : r.SuffixBehind j es)
    (hl : s.SameLog r) : s.SuffixBehind j es := by
  intro k
  rw [hl.getLogAt]
  exact h k

end Log

/-! ## One step -/

/-- The last index and the snapshot point have not moved back, nor does a file that has been
written know an older snapshot. -/
structure Grown (r : Raft) (s : Scope) : Prop where
  last : r.lastLogIndex ≤ s.raft.lastLogIndex
  included : r.lastIncludedIndex ≤ s.raft.lastIncludedIndex
  files : ∀ d ∈ persistedOf s.effects, r.lastIncludedIndex ≤ d.lastIncludedIndex

/-- What is known of a node between two steps. -/
structure Telling (r : Raft) (ch : List RaftMessage) : Prop where
  ranked : r.Ranked
  books : Books r ch
  floor : 0 ≤ r.lastIncludedIndex
  peers : r.PeersWithin

section Step

variable {r s : Raft} {i : Input} {rest : List RaftMessage} {a b : Scope}

theorem Grown.of_marks (h : Grown r a) (hm : s.marks = a.raft.marks) :
    Grown r { a with raft := s } where
  last := by
    show r.lastLogIndex ≤ s.lastLogIndex
    rw [lastLogIndex_of_marks hm]
    exact h.last
  included := by
    show r.lastIncludedIndex ≤ s.lastIncludedIndex
    rw [lastIncludedIndex_of_marks hm]
    exact h.included
  files := h.files

theorem Grown.save (h : Grown r a) (hs : r.lastIncludedIndex ≤ s.lastIncludedIndex)
    (hl : r.lastLogIndex ≤ s.lastLogIndex) : Grown r (a.save s) where
  last := hl
  included := hs
  files := by
    intro d hd
    rw [Scope.save_effects, persistedOf_append] at hd
    rcases List.mem_append.mp hd with hd | hd
    · exact h.files d hd
    · rw [List.mem_singleton.mp hd]
      exact hs

theorem Grown.emit (h : Grown r a) (m : RaftMessage) : Grown r (a.emit m) where
  last := h.last
  included := h.included
  files := by
    rw [Scope.emit_effects, persistedOf_append]
    simpa using h.files

theorem Grown.change (hh : r.Honest i rest) (hc : Change r i a b)
    (hb : Books a.raft (rest ++ pushedOf a.effects)) (h : Grown r a) : Grown r b := by
  have hlast := h.last
  cases hc with
  | emit _ m => exact h.emit m
  | turn _ r' hm => exact h.of_marks hm
  | vote _ r' hm =>
    have hm' := h.of_marks hm
    exact h.save hm'.included hm'.last
  | sync _ m =>
    have hs := h.save (s := a.raft.appendLogs m.entries) h.included h.last
    refine ⟨?_, hs.included, hs.files⟩
    have hw := hb.last
    show r.lastLogIndex ≤ a.raft.baseIndex + (a.raft.logs ++ m.entries).length - 1
    rw [List.length_append]
    omega
  | follow => exact ⟨h.last, h.included, h.files⟩
  | reject _ m t hi hl hm ht =>
    rw [hb.toBooked.truncateAfter ht]
    exact h
  | write m text =>
    have hs := h.save (s := r.appendLogs [r.entryOf m text]) h.included h.last
    refine ⟨?_, hs.included, hs.files⟩
    show r.lastLogIndex ≤ r.lastLogIndex + 1
    omega
  | confirm => exact ⟨h.last, h.included, h.files⟩
  | hand _ es =>
    exact Grown.emit (a := { a with raft := a.raft.setIsApplying true })
      ⟨h.last, h.included, h.files⟩ _
  | applied => exact ⟨h.last, h.included, h.files⟩
  | demand =>
    exact Grown.emit (a := { a with raft := a.raft.setIsSnapshoting true })
      ⟨h.last, h.included, h.files⟩ _
  | generated m hi hok =>
    have hp := (hh.taken m hi hok).1
    have hs := h.save (s := r.snapshotTaken m) (Int.le_of_lt hp.1)
      (Int.le_of_eq (truncateBefore_lastLogIndex _ r).symm)
    exact ⟨hs.last, hs.included, hs.files⟩
  | installed m hi hok =>
    have hp := (hh.installed m hi hok).1
    exact ⟨Int.le_of_eq (truncateBefore_lastLogIndex _ r).symm, Int.le_of_eq hp.symm, h.files⟩

theorem Telling.goes (h : Telling r (i.taken ++ rest)) (hk : KeepsTruth r i) {s : Scope}
    (hs : Goes r i s) : Books s.raft (rest ++ pushedOf s.effects) ∧ Grown r s := by
  have hh := h.books.honest h.ranked hk.install
  refine hs.invariant
    (I := fun s => Books s.raft (rest ++ pushedOf s.effects) ∧ Grown r s) ?_ ?_
  · refine ⟨?_, Int.le_refl _, Int.le_refl _, fun d hd => absurd hd List.not_mem_nil⟩
    show Books r (rest ++ [])
    rw [List.append_nil]
    cases i with
    | message m => exact Books.drop h.books
    | _ => exact h.books
  · exact fun _ _ hc hab => ⟨Books.change hh hc hab.1, Grown.change hh hc hab.1 hab.2⟩

theorem mem_updatePeer_find {id : Int} {f : RaftPeer → RaftPeer} {ps : List RaftPeer}
    {p : RaftPeer} (h : p ∈ updatePeer id f ps) :
    p ∈ ps ∨ ∃ q ∈ ps, ps.find? (fun p => p.id = id) = some q ∧ q.id = id ∧ p = f q := by
  induction ps with
  | nil => cases h
  | cons q ps ih =>
    rw [updatePeer] at h
    by_cases hq : q.id = id
    · rw [if_pos hq] at h
      rcases List.mem_cons.mp h with rfl | h
      · exact .inr ⟨q, List.mem_cons_self, by simp [hq], hq, rfl⟩
      · exact .inl (List.mem_cons_of_mem q h)
    · rw [if_neg hq] at h
      rcases List.mem_cons.mp h with rfl | h
      · exact .inl List.mem_cons_self
      · rcases ih h with h | ⟨x, hx, hf, hxid, hxp⟩
        · exact .inl (List.mem_cons_of_mem q h)
        · exact .inr ⟨x, List.mem_cons_of_mem q hx, by simp [hq, hf], hxid, hxp⟩

theorem PeersWithin.react (h : Telling r (i.taken ++ rest)) (hk : KeepsTruth r i)
    (hg : Grown r (r.react i).scope)
    (hb : (r.react i).raft.Booked) : (r.react i).raft.PeersWithin := by
  intro hlead p hp hne
  have hlast : r.lastLogIndex ≤ (r.react i).raft.lastLogIndex := hg.last
  rw [(react_ballot r i).id_eq] at hne
  have hold : r.role = .leader → p ∈ r.peers → p.matchIndex < p.nextIndex ∧
      p.nextIndex ≤ (r.react i).raft.lastLogIndex + 1 := by
    intro hr hp
    obtain ⟨hm, hn⟩ := h.peers hr p hp hne
    exact ⟨hm, by omega⟩
  cases react_peers r i with
  | keep hps hr => exact hold (hr hlead) (hps ▸ hp)
  | stepDown hr => exact nomatch hr.symm.trans hlead
  | elected m hi hps =>
    rw [hps] at hp
    obtain ⟨q, _, rfl⟩ := List.mem_map.mp hp
    have hq : q.id ≠ r.id := by
      intro hq
      rw [resetPeer, if_pos hq] at hne
      exact hne hq
    have hfloor := h.floor
    have hbase := h.books.base
    have hend := h.books.last
    rw [resetPeer, if_neg hq]
    show 0 < r.lastLogIndex + 1 ∧ r.lastLogIndex + 1 ≤ _
    omega
  | confirmed m q hi hr ht hf hs hps =>
    rw [hps] at hp
    rcases mem_updatePeer_find hp with hp | ⟨x, _, hx, hxid, rfl⟩
    · exact hold hr hp
    · subst hi
      have hle := hk.answer hr ht (hxid ▸ hne) q hf
      rw [if_pos hs] at hle
      show m.lastLogIndex < m.lastLogIndex + 1 ∧ m.lastLogIndex + 1 ≤ _
      omega
  | refused m q hi hr ht hf hs hn hps =>
    rw [hps] at hp
    rcases mem_updatePeer_find hp with hp | ⟨x, hxm, hx, hxid, rfl⟩
    · exact hold hr hp
    · subst hi
      have hxq : x = q := Option.some.inj (hx.symm.trans hf)
      subst hxq
      have hlt := hk.answer hr ht (hxid ▸ hne) x hf
      rw [if_neg (Bool.eq_false_iff.mp hs)] at hlt
      have hle := (h.peers hr x hxm hne).2
      have hlt' := hlt hn
      show x.matchIndex < x.nextIndex - 1 ∧ x.nextIndex - 1 ≤ _
      omega
  | shipped m q hi hr ht hf hps =>
    rw [hps] at hp
    rcases mem_updatePeer_find hp with hp | ⟨x, _, hx, hxid, rfl⟩
    · exact hold hr hp
    · have hbase := hb.base
      have hend := hb.last
      have hinc : r.lastIncludedIndex ≤ (r.react i).raft.lastIncludedIndex := hg.included
      show r.lastIncludedIndex < r.lastIncludedIndex + 1 ∧ r.lastIncludedIndex + 1 ≤ _
      omega

/-! ### The requests -/

theorem Booked.written (h : r.Booked) (i : Input) : (r.written i).Booked := by
  unfold Raft.written
  split
  · split
    next e hw =>
      apply h.write
      unfold writeOf at hw
      split at hw
      · obtain ⟨text, _, rfl⟩ := Option.map_eq_some_iff.mp hw
        rfl
      · cases hw
    next => exact h
  · exact h

/-- The peers that a step sends to have a next index within the log that it sends. -/
theorem Telling.sendsTo {ch : List RaftMessage} (h : Telling r ch) {p : RaftPeer}
    (hp : p ∈ r.sendsTo i) (hne : p.id ≠ r.id) :
    p.nextIndex ≤ (r.written i).lastLogIndex + 1 := by
  cases i with
  | electionTimeout => cases hp
  | heartbeatTimeout =>
    simp only [Raft.sendsTo] at hp
    split at hp
    · exact (h.peers ‹_› p hp hne).2
    · cases hp
  | message m =>
    cases m with
    | requestVoteResponse m =>
      simp only [Raft.sendsTo] at hp
      split at hp
      · obtain ⟨q, _, rfl⟩ := List.mem_map.mp hp
        have hq : q.id ≠ r.id := by
          intro hq
          rw [resetPeer, if_pos hq] at hne
          exact hne hq
        rw [resetPeer, if_neg hq]
        exact Int.le_refl _
      · cases hp
    | kvOperationRequest m =>
      simp only [Raft.sendsTo] at hp
      split at hp
      next hw =>
        obtain ⟨e, he⟩ := Option.isSome_iff_exists.mp hw
        have hr : r.role = .leader := by
          by_contra hr
          rw [writeOf, if_neg hr] at he
          cases he
        have hle := (h.peers hr p hp hne).2
        rw [Raft.written, he]
        show p.nextIndex ≤ r.lastLogIndex + 1 + 1
        omega
      next => cases hp
    | _ => cases hp

theorem Telling.tellsTruth {ch : List RaftMessage} (h : Telling r ch) (i : Input) :
    r.TellsTruth i := by
  intro m hm
  obtain ⟨p, hp, hne, hbase, hprev, hterm, hentries⟩ := react_emitted r i _ hm
  have hsent := react_sent (List.ne_nil_of_mem hp)
  obtain ⟨hwbase, hwindex, hwterm⟩ := written_fields r i
  have hb := h.books.toBooked.written i
  have hnext := h.sendsTo hp hne
  constructor
  · have hown := hb.ownTerm (j := m.prevLogIndex) (by omega) (by omega) hterm
    exact .inr (hown.of_eq hsent.log (hsent.index.trans hwindex.symm)
      (hsent.term.trans hwterm.symm))
  · intro hbeat
    have hpos : p.nextIndex = m.prevLogIndex + 1 := by omega
    rw [hentries, hbeat, hpos]
    exact (Whole.suffixBehind hb.last (by omega)).of_sameLog hsent.log

end Step

end Raft

/-! ## Runs -/

/-- No file of the node has a snapshot point below 0. -/
def FloorFile (file : Option RaftPersistData) : Prop := ∀ d ∈ file, 0 ≤ d.lastIncludedIndex

theorem floorFile_some {d : RaftPersistData} (h : 0 ≤ d.lastIncludedIndex) :
    FloorFile (some d) := by
  intro x hx
  obtain rfl := Option.mem_some_iff.mp hx
  exact h

theorem upholds_telling : Upholds KeepsTruth
    (fun v => Telling v.raft v.channel ∧ FloorFile v.file) (fun v => FloorFile v.file) where
  perm := fun _ _ h hp => ⟨⟨h.1.ranked, h.1.books.perm hp, h.1.floor, h.1.peers⟩, h.2⟩
  permWeak := fun _ _ h _ => h
  receive := fun _ _ h hm =>
    ⟨⟨h.1.ranked, h.1.books.quiet (quiet_of_not_isLocal hm), h.1.floor, h.1.peers⟩, h.2⟩
  drop := fun _ _ _ h hc =>
    ⟨⟨h.1.ranked, Books.drop (hc ▸ h.1.books), h.1.floor, h.1.peers⟩, h.2⟩
  answer := fun _ _ _ _ _ h hc hm =>
    ⟨⟨h.1.ranked, Books.answer (hc ▸ h.1.books) hm, h.1.floor, h.1.peers⟩, h.2⟩
  core := by
    intro v i ch h hc hg ht
    have h1 : Telling v.raft (i.taken ++ ch) := hc ▸ h.1
    obtain ⟨hb, hgrown⟩ := h1.goes hg (react_goes ht)
    refine ⟨⟨h1.ranked.react i, hb, Int.le_trans h1.floor hgrown.included, ?_⟩, ?_⟩
    · exact PeersWithin.react h1 hg hgrown hb.toBooked
    · exact file_ind h.2 fun d hd =>
        floorFile_some (Int.le_trans h1.floor (hgrown.files d hd))
  dies := by
    intro v i ch h hc hg
    have h1 : Telling v.raft (i.taken ++ ch) := hc ▸ h.1
    obtain ⟨s, hs, heff, _⟩ := (react_breaks v.raft i).reached
    obtain ⟨_, hgrown⟩ := h1.goes hg hs
    have heff' : (v.raft.react i).persisted = persistedOf s.effects := congrArg persistedOf heff
    refine file_ind h.2 fun d hd => floorFile_some ?_
    rw [heff'] at hd
    exact Int.le_trans h1.floor (hgrown.files d hd)
  weak := fun _ h => h.2

open Process

theorem restart_telling (id : Int) (ids : List Int) {file : Option RaftPersistData}
    (h : FloorFile file) : Telling (restart id ids file) [] where
  ranked := restart_ranked id ids file
  books := restart_books id ids file
  floor := by
    cases file with
    | none => exact Int.le_refl 0
    | some d => exact h d rfl
  peers := by
    cases file <;> exact fun hr => nomatch hr

/-- A leader keeps every next index within its log, and its requests describe that log. -/
structure Process.Truthful (p : Process) : Prop where
  peers : p.raft.PeersWithin
  requests : ∀ e, ∀ i ∈ p.turn e, p.raft.TellsTruth i

/-- A leader describes its own log truthfully, in all lives of the node, when no answer
takes it out of its bounds. -/
theorem truthful_of_keepsTruth (id : Int) (ids : List Int) (p : Process)
    (hl : Lives (Obeys KeepsTruth) id ids p) (ha : p.alive = true) : p.Truthful := by
  have h := (upholds_telling.lives (F := FloorFile) nofun
    (fun file hf => ⟨restart_telling id ids hf, hf⟩) (fun _ h => h) hl).1 ha
  exact ⟨h.1.peers, fun _ i _ => h.1.tellsTruth i⟩

/-- A leader sends a write to its peers, and one of them confirms it. -/
def writeConfirmed : List Event :=
  [.electionTimeout, .response (.requestVoteResponse { term := 1, voteGranted := true }), .handle,
    .operation { uuid := ['u'], seq := 1, opType := .put, key := ['a'], value := ['1'] }, .handle,
    .response (.appendEntriesResponse
      { term := 1, fromId := 1, success := true, lastLogIndex := 1 }),
    .handle]

theorem truthful_one :
    ∃ p, Lives (Obeys KeepsTruth) 0 [0, 1, 2] p ∧ p.raft.role = .leader ∧
      (∃ q ∈ p.raft.peers, q.id = 1 ∧ q.nextIndex = 2) ∧ p.Truthful := by
  obtain ⟨p, hr, hp⟩ := Reaches.of_exec (Obeys KeepsTruth) 0 [0, 1, 2] none writeConfirmed
    (fun p => decide (p.alive = true ∧ p.raft.role = .leader ∧
      ∃ q ∈ p.raft.peers, q.id = 1 ∧ q.nextIndex = 2)) (by decide +kernel)
  obtain ⟨ha, hl, hq⟩ := of_decide_eq_true hp
  exact ⟨p, .first hr, hl, hq, truthful_of_keepsTruth 0 [0, 1, 2] p (.first hr) ha⟩

end WWRaftKV
