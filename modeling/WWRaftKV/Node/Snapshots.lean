/-
The labels stay exact.

One invariant says how the file, the log and the two channels fit together: the labels from
the core's snapshot point to the file never go back, no label in front of the clerk is older
or younger than what it stands for, and the entries above the point are still in the vector.
-/
import WWRaftKV.Node.Install

namespace WWRaftKV

open Process (Turned)

/-- The first message may stand in front of the second: no other label gets into the file
before it is sent, and no entry into the store before a snapshot of it is taken. -/
structure RaftMessage.Before (m m' : RaftMessage) : Prop where
  ship : ∀ l ∈ m.takes, ∀ l' ∈ m'.ships, l = l'
  ask : handedBy [m] ≠ [] → m'.asks = none

namespace Process

/-- The labels from the point of the core to the file. -/
def labels (p : Process) : List (Int × Nat) :=
  p.raft.point :: p.outter.filterMap (·.msg.given)

/-- The label of what is in the file. -/
def fileLabel (p : Process) : Int × Nat :=
  (p.outter.filterMap (·.msg.given)).getLastD p.raft.point

end Process

namespace RaftClerk

structure InStep (codec : SnapshotCodec) (L : LogOf) (a : Int) (c : RaftClerk) (p : Process) :
    Prop extends Stored L a c p where
  file : ∀ data ∈ c.snapshotFile,
    Labelled.Exact codec L { index := p.fileLabel.1, term := p.fileLabel.2, data := data }
  low : a ≤ p.raft.lastIncludedIndex
  high : p.fileLabel.1 ≤ a + c.applied.length
  rising : p.labels.Pairwise fun l l' => l.1 ≤ l'.1
  ships : ∀ m ∈ p.inner.map (·.msg), ∀ l ∈ m.ships, l = p.fileLabel
  asks : ∀ m ∈ p.inner.map (·.msg), ∀ l ∈ m.asks,
    l.1 = a + c.applied.length ∧ l.2 = (L l.1).term
  before : (p.inner.map (·.msg)).Pairwise RaftMessage.Before
  covered : p.raft.Covered
  kept : ∀ x ∈ p.handed, p.raft.lastIncludedIndex < x.1 → p.raft.getLogAt x.1 = some x.2

variable {codec : SnapshotCodec} {L : LogOf} {a : Int} {c c' : RaftClerk} {p p' : Process}
  {l : Int × Nat}

theorem fileLabel_of_given (hraft : p'.raft = p.raft)
    (hout : p'.outter.filterMap (·.msg.given) = p.outter.filterMap (·.msg.given)) :
    p'.fileLabel = p.fileLabel := by
  rw [Process.fileLabel, hraft, hout]
  rfl

theorem labels_of_given (hraft : p'.raft = p.raft)
    (hout : p'.outter.filterMap (·.msg.given) = p.outter.filterMap (·.msg.given)) :
    p'.labels = p.labels := by
  rw [Process.labels, hraft, hout]
  rfl

/-- The core has no part in the step. -/
theorem InStep.of_core (h : InStep codec L a c p) (hstored : Stored L a c' p')
    (hraft : p'.raft = p.raft) (hhistory : p'.history = p.history)
    (hfile : ∀ data ∈ c'.snapshotFile,
      Labelled.Exact codec L { index := p'.fileLabel.1, term := p'.fileLabel.2, data := data })
    (hhigh : p'.fileLabel.1 ≤ a + c'.applied.length)
    (hrising : p'.labels.Pairwise fun l l' => l.1 ≤ l'.1)
    (hships : ∀ m ∈ p'.inner.map (·.msg), ∀ l ∈ m.ships, l = p'.fileLabel)
    (hasks : ∀ m ∈ p'.inner.map (·.msg), ∀ l ∈ m.asks,
      l.1 = a + c'.applied.length ∧ l.2 = (L l.1).term)
    (hbefore : (p'.inner.map (·.msg)).Pairwise RaftMessage.Before) : InStep codec L a c' p' := by
  have hhanded : p'.handed = p.handed := congrArg (List.flatMap CoreStep.handed) hhistory
  refine { hstored with file := hfile, low := ?_, high := hhigh, rising := hrising,
                        ships := hships, asks := hasks, before := hbefore,
                        covered := ?_, kept := ?_ }
  · rw [hraft]
    exact h.low
  · rw [hraft]
    exact h.covered
  · rw [hhanded, hraft]
    exact h.kept

/-- The last label of a list that never goes back is the largest. -/
theorem le_getLastD {y : Int × Nat} {ls : List (Int × Nat)}
    (h : (y :: ls).Pairwise fun l l' => l.1 ≤ l'.1) : ∀ x ∈ y :: ls, x.1 ≤ (ls.getLastD y).1 := by
  induction ls generalizing y with
  | nil =>
    intro x hx
    rw [List.mem_singleton.mp hx]
    exact Int.le_refl _
  | cons z ls ih =>
    obtain ⟨hy, hrest⟩ := List.pairwise_cons.mp h
    rw [List.getLastD_cons]
    intro x hx
    rcases List.mem_cons.mp hx with rfl | hx
    · exact Int.le_trans (hy z List.mem_cons_self) (ih hrest z List.mem_cons_self)
    · exact ih hrest x hx

/-! ## The clerk takes a message -/

section Take

variable {x : Item} {xs : List Item}

/-- What stands behind the message that the clerk takes. -/
theorem InStep.front (h : InStep codec L a c p) (hp : p.inner = x :: xs) :
    (∀ m ∈ xs.map (·.msg), x.msg.Before m) ∧ (xs.map (·.msg)).Pairwise RaftMessage.Before := by
  have hbefore := h.before
  rw [hp, List.map_cons] at hbefore
  exact List.pairwise_cons.mp hbefore

/-- The clerk takes a message that has no label, or its snapshot fails. -/
theorem InStep.take (h : InStep codec L a c p) (hp : p.inner = x :: xs)
    (hstored : Stored L a c' p') (hraft : p'.raft = p.raft) (hhistory : p'.history = p.history)
    (hinner : p'.inner = xs)
    (hout : p'.outter.filterMap (·.msg.given) = p.outter.filterMap (·.msg.given))
    (happlied : c'.applied = c.applied ++ handedBy [x.msg])
    (hfile : c'.snapshotFile = c.snapshotFile) : InStep codec L a c' p' := by
  have hlabels : p'.labels = p.labels := labels_of_given hraft hout
  have hlabel : p'.fileLabel = p.fileLabel := fileLabel_of_given hraft hout
  obtain ⟨hfront, hrest⟩ := h.front hp
  have hsub : ∀ m ∈ xs.map (·.msg), m ∈ p.inner.map (·.msg) := by
    intro m hm
    rw [hp, List.map_cons]
    exact List.mem_cons_of_mem _ hm
  have hlength : c'.applied.length = c.applied.length + (handedBy [x.msg]).length := by
    rw [happlied, List.length_append]
  apply h.of_core hstored hraft hhistory
  · rw [hfile, hlabel]
    exact h.file
  · rw [hlabel]
    have := h.high
    omega
  · rw [hlabels]
    exact h.rising
  · rw [hinner, hlabel]
    exact fun m hm => h.ships m (hsub m hm)
  · rw [hinner]
    intro m hm l hl
    obtain ⟨hindex, hterm⟩ := h.asks m (hsub m hm) l hl
    refine ⟨?_, hterm⟩
    -- a snapshot that is asked for has no entries in front of it
    have hnone : handedBy [x.msg] = [] := by
      by_contra hne
      have hasks := (hfront m hm).ask hne
      rw [hasks] at hl
      cases hl
    rw [hlength, hnone]
    exact hindex
  · rw [hinner]
    exact hrest

/-- The clerk writes the file under a new label, which is on its way to the core then. -/
theorem InStep.label (h : InStep codec L a c p) (hp : p.inner = x :: xs)
    (hstored : Stored L a c' p') (hraft : p'.raft = p.raft) (hhistory : p'.history = p.history)
    (hinner : p'.inner = xs)
    (hout : p'.outter.filterMap (·.msg.given) = p.outter.filterMap (·.msg.given) ++ [l])
    (happlied : c'.applied = c.applied)
    (hfile : ∀ data ∈ c'.snapshotFile,
      Labelled.Exact codec L { index := l.1, term := l.2, data := data })
    (hl : l ∈ x.msg.takes) (hindex : l.1 = a + c.applied.length) : InStep codec L a c' p' := by
  have hlabels : p'.labels = p.labels ++ [l] := by
    rw [Process.labels, hraft, hout]
    rfl
  have hlabel : p'.fileLabel = l := by
    rw [Process.fileLabel, hout]
    exact List.getLastD_concat
  obtain ⟨hfront, hrest⟩ := h.front hp
  have hsub : ∀ m ∈ xs.map (·.msg), m ∈ p.inner.map (·.msg) := by
    intro m hm
    rw [hp, List.map_cons]
    exact List.mem_cons_of_mem _ hm
  apply h.of_core hstored hraft hhistory
  · rw [hlabel]
    exact hfile
  · rw [hlabel, happlied]
    exact Int.le_of_eq hindex
  · rw [hlabels]
    apply List.pairwise_append.mpr
    refine ⟨h.rising, List.pairwise_singleton _ _, ?_⟩
    intro q hq q' hq'
    rw [List.mem_singleton.mp hq', hindex]
    exact Int.le_trans (le_getLastD h.rising q hq) h.high
  · rw [hinner, hlabel]
    intro m hm q hq
    exact ((hfront m hm).ship l hl q hq).symm
  · rw [hinner, happlied]
    exact fun m hm => h.asks m (hsub m hm)
  · rw [hinner]
    exact hrest

end Take

/-! ## The core takes a turn -/

theorem react_commit {r : Raft} {m : RaftAppendEntriesResponseMessage}
    (h : (r.react (.message (.appendEntriesResponse m))).thrown = false) :
    (r.react (.message (.appendEntriesResponse m))).raft.lastCommitIndex = r.lastCommitIndex ∨
      (r.react (.message (.appendEntriesResponse m))).raft.lastCommitIndex =
        (r.progress m).majorityMatch := by
  apply (react_goes h).invariant (I := fun s => s.raft.lastCommitIndex = r.lastCommitIndex ∨
    s.raft.lastCommitIndex = (r.progress m).majorityMatch) (.inl rfl)
  intro d b hc hd
  cases hc with
  | turn _ r' hk =>
    show r'.lastCommitIndex = _ ∨ r'.lastCommitIndex = _
    rw [Raft.lastCommitIndex_of_marks hk]
    exact hd
  | vote _ r' hk =>
    show r'.lastCommitIndex = _ ∨ r'.lastCommitIndex = _
    rw [Raft.lastCommitIndex_of_marks hk]
    exact hd
  | confirm m' hi =>
    cases hi
    exact .inr rfl
  | reject _ _ _ hi => cases hi
  | follow _ _ hi => cases hi
  | applied _ hi => cases hi
  | generated _ hi => cases hi
  | installed _ hi => cases hi
  | _ => exact hd

theorem handedBy_eq_nil {ms : List RaftMessage} (h : ∀ m ∈ ms, m.aboutApply = false) :
    handedBy ms = [] := by
  apply List.flatMap_eq_nil_iff.mpr
  intro m hm
  have := h m hm
  cases m <;> first | rfl | cases this

section Turn

variable {t : Input}

/-- No entries are on their way to the clerk while nothing is being applied. -/
theorem handedBy_inner {k : Nat} (hin : InTurn a p.raft p.channel p.handed)
    (hcount : (if p.raft.isApplying then 1 else 0) ≤ k)
    (hout : k ≤ (p.outter.map (·.msg)).countP (·.aboutApply)) :
    handedBy (p.inner.map (·.msg)) = [] := by
  apply handedBy_eq_nil
  intro m hm
  have hone := hin.one
  rw [Process.channel, List.map_append, List.countP_append] at hone
  have hzero : (p.inner.map (·.msg)).countP (·.aboutApply) = 0 := by omega
  exact Bool.eq_false_iff.mpr (List.countP_eq_zero.mp hzero m hm)

/-- What is asked for in this turn. -/
structure Asked (a : Int) (p : Process) (t : Input) (q : GenerateSnapshotRequestMessage) :
    Prop where
  inner : handedBy (p.inner.map (·.msg)) = []
  pushed : handedBy (p.raft.react t).pushed = []
  demands : p.raft.Demands (a + p.handed.length) q

theorem asked_of_pushed (hin : InTurn a p.raft p.channel p.handed)
    (hin' : InTurn a p'.raft p'.channel p'.handed) (ht : Turned p p' t)
    (hmem : ∀ m, t = .message m → ∃ x ∈ p.outter, x.msg = m)
    (hforward : CommitsForward p.raft t) (hrest : p.raft.AsksAtRest t)
    {q : GenerateSnapshotRequestMessage}
    (hq : .generateSnapshotRequest q ∈ (p.raft.react t).pushed) : Asked a p t q := by
  rcases Raft.react_emitted _ _ _ hq with ⟨m, rfl, hconf, hdem⟩ | ⟨m, rfl, hdem⟩
  · obtain ⟨happ, hle⟩ := hrest hconf hdem.free hdem.due
    have hidle := hin.idle happ
    have hahead := hin'.ahead
    have hcommit := hforward.confirm hconf.role hconf.term hconf.success hconf.majority
    have hlast : p'.raft.lastCommitIndex ≤ p.raft.lastAppliedIndex := by
      rw [ht.raft]
      rcases react_commit ht.returns with heq | heq <;> omega
    refine ⟨handedBy_inner (k := 0) hin (by rw [happ]; exact Nat.le_refl _) (Nat.zero_le _), ?_, ?_⟩
    · apply List.eq_nil_of_length_eq_zero
      rw [ht.handed, List.length_append] at hahead
      omega
    · rw [← hidle]
      exact hdem
  · obtain ⟨x, hx, hmsg⟩ := hmem _ rfl
    have hin_out : RaftMessage.applyCommitLogsResponse m ∈ p.outter.map (·.msg) :=
      hmsg ▸ List.mem_map_of_mem hx
    refine ⟨handedBy_inner (k := 1) hin (by split <;> omega) ?_, ?_, ?_⟩
    · exact List.countP_pos_iff.mpr ⟨_, hin_out, rfl⟩
    · exact handedBy_pushed_eq_nil fun s hcan => hcan
    · have hmark := hin.marks (.applyCommitLogsResponse m)
        (by rw [Process.channel, List.map_append]; exact List.mem_append_right _ hin_out)
        m.lastCommitIndex rfl
      rw [← hmark]
      exact hdem

/-- The point of the core moves along the labels. -/
theorem labels_turn (ht : Turned p p' t) (hout : p.outter.filterMap (·.msg.given) =
    t.given.toList ++ p'.outter.filterMap (·.msg.given)) :
    p'.fileLabel = p.fileLabel ∧ p'.labels.Sublist p.labels := by
  have hpoint : p'.raft.point = t.given.getD p.raft.point := by
    rw [ht.raft]
    exact Raft.react_point ht.returns
  unfold Process.fileLabel Process.labels
  rw [hpoint, hout]
  cases t.given with
  | none => exact ⟨rfl, List.Sublist.refl _⟩
  | some l =>
    refine ⟨?_, List.sublist_cons_self _ _⟩
    rw [Option.toList_some, List.singleton_append, List.getLastD_cons]
    rfl

theorem getLastD_eq_of_forall {α : Type} {ls : List α} {d : α} (h : ∀ l ∈ ls, l = d) :
    ls.getLastD d = d := by
  rw [List.getLastD_eq_getLast?]
  cases hlast : ls.getLast? with
  | none => rfl
  | some l => exact h l (List.mem_of_getLast? hlast)

/-- A snapshot that is sent in this turn is the one in the file. -/
theorem shipped_of_pushed (hship : p.ShipsCurrent t) {m : RaftMessage}
    (hm : m ∈ (p.raft.react t).pushed) (hl : l ∈ m.ships) :
    l = p.raft.point ∧ l = p.fileLabel ∧ p.raft.sendsTo t ≠ [] ∧
      ∀ x ∈ p.inner, ∀ l' ∈ x.msg.takes, l' = l := by
  cases m with
  | installSnapshotRequest q =>
    obtain ⟨hindex, hterm, r, hr, hne, hnext⟩ := Raft.react_emitted _ _ _ hm
    obtain ⟨htakes, hgiven⟩ := hship ⟨r, hr, hne, hnext⟩
    have hpoint : l = p.raft.point := by
      rw [← Option.some.inj hl, Raft.point, hindex, hterm]
    refine ⟨hpoint, ?_, List.ne_nil_of_mem hr, ?_⟩
    · rw [hpoint]
      symm
      apply getLastD_eq_of_forall
      intro l' hl'
      obtain ⟨x, hx, hg⟩ := List.mem_filterMap.mp hl'
      exact hgiven x hx l' hg
    · rw [hpoint]
      exact htakes
  | _ => cases hl

/-- A step that sends to the peers asks its clerk for nothing. -/
theorem takes_eq_none (hsends : p.raft.sendsTo t ≠ []) {m : RaftMessage}
    (hm : m ∈ (p.raft.react t).pushed) : m.takes = none := by
  have hemit := Raft.react_emitted _ _ m hm
  cases m with
  | generateSnapshotRequest q =>
    rcases hemit with ⟨_, rfl, _⟩ | ⟨_, rfl, _⟩ <;> exact absurd rfl hsends
  | applySnapshotRequest q =>
    obtain ⟨_, rfl, _⟩ := hemit
    exact absurd rfl hsends
  | _ => rfl

/-- The term in a demand is that of the last entry applied. -/
theorem InStep.asked (h : InStep codec L a c p) (hin : InTurn a p.raft p.channel p.handed)
    {q : GenerateSnapshotRequestMessage} (hq : Asked a p t q) :
    q.lastAppliedIndex = a + c.applied.length ∧
      q.lastAppliedTerm = (L q.lastAppliedIndex).term := by
  have hsplit := h.split
  rw [hq.inner, List.append_nil] at hsplit
  have hindex := hq.demands.index
  have hlow := h.low
  have hdue := hq.demands.due
  unfold Raft.snapshotThreshold at hdue
  -- the entry handed over last is the one at that index
  have hlast : p.handed.length - 1 < p.handed.length := by omega
  obtain ⟨x, hx⟩ : ∃ x, p.handed[p.handed.length - 1]? = some x :=
    ⟨_, List.getElem?_eq_getElem hlast⟩
  have hxi : x.1 = a + p.handed.length := by
    rw [index_of_window hin.indices hx]
    omega
  have hx := List.mem_of_getElem? hx
  have hentry := h.kept x hx (by omega)
  have hterm := Raft.getTermAt_of_getLogAt hentry (by omega)
  rw [hxi, hq.demands.term] at hterm
  refine ⟨by rw [hindex, hsplit], ?_⟩
  rw [hindex, ← hxi, ← h.follows x (hsplit ▸ hx)]
  exact Option.some.inj hterm

/-- What is in the channel of the clerk after a turn may stand there in this order. -/
theorem InStep.before_turn (h : InStep codec L a c p)
    (hin : InTurn a p.raft p.channel p.handed) (hin' : InTurn a p'.raft p'.channel p'.handed)
    (ht : Turned p p' t) (hmem : ∀ m, t = .message m → ∃ x ∈ p.outter, x.msg = m)
    (hforward : CommitsForward p.raft t) (hrest : p.raft.AsksAtRest t)
    (hship : p.ShipsCurrent t) :
    (p.inner.map (·.msg) ++ (p.raft.react t).pushed).Pairwise RaftMessage.Before := by
  have hasked : ∀ m ∈ (p.raft.react t).pushed, ∀ l ∈ m.asks, ∃ q, Asked a p t q := by
    intro m hm l hl
    cases m with
    | generateSnapshotRequest q =>
      exact ⟨q, asked_of_pushed hin hin' ht hmem hforward hrest hm⟩
    | _ => cases hl
  apply List.pairwise_append.mpr
  refine ⟨h.before, ?_, ?_⟩
  · apply List.pairwise_of_forall_mem_list
    intro m hm m' hm'
    constructor
    · intro l hl l' hl'
      obtain ⟨_, _, hsends, _⟩ := shipped_of_pushed hship hm' hl'
      rw [takes_eq_none hsends hm] at hl
      cases hl
    · intro hne
      apply Option.eq_none_iff_forall_not_mem.mpr
      intro l hl
      obtain ⟨q, hq⟩ := hasked m' hm' l hl
      exact hne (List.flatMap_eq_nil_iff.mpr fun x hx =>
        List.flatMap_eq_nil_iff.mp hq.pushed x (List.mem_singleton.mp hx ▸ hm))
  · intro m hm m' hm'
    constructor
    · intro l hl l' hl'
      obtain ⟨x, hx, rfl⟩ := List.mem_map.mp hm
      obtain ⟨_, _, _, htakes⟩ := shipped_of_pushed hship hm' hl'
      exact htakes x hx l hl
    · intro hne
      apply Option.eq_none_iff_forall_not_mem.mpr
      intro l hl
      obtain ⟨q, hq⟩ := hasked m' hm' l hl
      exact hne (List.flatMap_eq_nil_iff.mpr fun x hx =>
        List.flatMap_eq_nil_iff.mp hq.inner x (List.mem_singleton.mp hx ▸ hm))

/-- A turn of the core keeps the labels. -/
theorem InStep.turn (h : InStep codec L a c p) (hstored : Stored L a c p')
    (hin : InTurn a p.raft p.channel p.handed)
    (hin' : InTurn a p'.raft p'.channel p'.handed) (ht : Turned p p' t)
    (hmem : ∀ m, t = .message m → ∃ x ∈ p.outter, x.msg = m)
    (hout : p.outter.filterMap (·.msg.given) =
      t.given.toList ++ p'.outter.filterMap (·.msg.given))
    (hforward : CommitsForward p.raft t) (hmis : p.raft.MismatchOutside t)
    (hrest : p.raft.AsksAtRest t) (hship : p.ShipsCurrent t) : InStep codec L a c p' := by
  obtain ⟨hlabel, hlabels⟩ := labels_turn ht hout
  have hrising := h.rising
  -- the point of the core does not go back
  have hrise : ∀ q ∈ p.labels, p.raft.lastIncludedIndex ≤ q.1 := by
    intro q hq
    rcases List.mem_cons.mp hq with rfl | hq
    · exact Int.le_refl _
    · exact (List.pairwise_cons.mp hrising).1 q hq
  have hmono : p.raft.lastIncludedIndex ≤ p'.raft.lastIncludedIndex :=
    hrise _ (hlabels.subset List.mem_cons_self)
  refine { hstored with file := ?_, low := ?_, high := ?_, rising := ?_, ships := ?_, asks := ?_,
                        before := ?_, covered := ?_, kept := ?_ }
  · rw [hlabel]
    exact h.file
  · exact Int.le_trans h.low hmono
  · rw [hlabel]
    exact h.high
  · exact hrising.sublist hlabels
  · rw [ht.inner, hlabel]
    intro m hm l hl
    rcases List.mem_append.mp hm with hm | hm
    · exact h.ships m hm l hl
    · exact (shipped_of_pushed hship hm hl).2.1
  · rw [ht.inner]
    intro m hm l hl
    rcases List.mem_append.mp hm with hm | hm
    · exact h.asks m hm l hl
    · cases m with
      | generateSnapshotRequest q =>
        cases hl
        exact h.asked hin (asked_of_pushed hin hin' ht hmem hforward hrest hm)
      | _ => cases hl
  · rw [ht.inner]
    exact h.before_turn hin hin' ht hmem hforward hrest hship
  · rw [ht.raft]
    apply Raft.covered_react h.covered
    apply h.covered.snapshotsReach
    intro l hl
    apply hrise
    apply List.mem_cons_of_mem
    rw [hout, Option.mem_def.mp hl]
    exact List.mem_cons_self
  · intro x hx hlt
    rw [ht.handed] at hx
    rcases List.mem_append.mp hx with hx | hx
    · have hentry := h.kept x hx (Int.lt_of_le_of_lt hmono hlt)
      rw [ht.raft] at hlt ⊢
      exact Raft.react_stays ht.returns hmis hlt hentry
    · rw [ht.raft]
      exact react_handed p.raft t x hx

end Turn

/-! ## The clerk's part of a step -/

/-- The labels that the clerk hands back. -/
theorem given_serve (p : Process) (b : Bool) (x : Item) :
    (p.serve b x).outter.filterMap (·.msg.given) = p.outter.filterMap (·.msg.given) ++
      ((clerkAnswer b x.msg).bind (·.given)).toList := by
  obtain ⟨_, _, _, hout⟩ := Process.serve_spec p b x
  rw [hout, List.filterMap_append]
  congr 1
  cases clerkAnswer b x.msg with
  | none => rfl
  | some m => cases hg : m.given <;> simp [hg]

theorem given_of_not_isLocal {m : RaftMessage} (h : m.isLocal = false) : m.given = none := by
  cases m <;> first | rfl | cases h

/-- Messages that arrive from elsewhere hand no label back. -/
theorem given_of_arrived {ys : List Item} (hys : ∀ y ∈ ys, y.msg.isLocal = false) :
    ys.filterMap (·.msg.given) = [] := by
  apply List.filterMap_eq_nil_iff.mpr
  intro y hy
  exact given_of_not_isLocal (hys y hy)

/-- The label in the message that a turn takes. -/
theorem given_of_taken {t : Input} {ys : List Item} (hys : ys.map (·.msg) = t.taken) :
    ys.filterMap (·.msg.given) = t.given.toList := by
  have hmap : ys.filterMap (·.msg.given) = t.taken.filterMap (·.given) := by
    rw [← hys, List.filterMap_map]
    rfl
  rw [hmap]
  cases t with
  | message m => cases hg : m.given <;> simp [Input.taken, Input.given, hg]
  | _ => rfl

/-- What neither the core nor the clerk has a part in. -/
theorem InStep.congr (h : InStep codec L a c p) (hstored : Stored L a c' p')
    (hraft : p'.raft = p.raft) (hhistory : p'.history = p.history) (hinner : p'.inner = p.inner)
    (hout : p'.outter.filterMap (·.msg.given) = p.outter.filterMap (·.msg.given))
    (happlied : c'.applied = c.applied) (hfile : c'.snapshotFile = c.snapshotFile) :
    InStep codec L a c' p' := by
  have hlabels : p'.labels = p.labels := labels_of_given hraft hout
  have hlabel : p'.fileLabel = p.fileLabel := fileLabel_of_given hraft hout
  apply h.of_core hstored hraft hhistory
  · rw [hfile, hlabel]
    exact h.file
  · rw [hlabel, happlied]
    exact h.high
  · rw [hlabels]
    exact h.rising
  · rw [hinner, hlabel]
    exact h.ships
  · rw [hinner, happlied]
    exact h.asks
  · rw [hinner]
    exact h.before

theorem InStep.same (h : InStep codec L a c p) (hs : SameData c c') : InStep codec L a c' p :=
  h.congr (h.toStored.same hs) rfl rfl rfl rfl hs.applied hs.snapshotFile

section Attend

variable {x : Item} {xs : List Item} {b : Bool}

/-- The clerk takes a message that brings no label. -/
theorem InStep.idle (h : InStep codec L a c p) (hp : p.inner = x :: xs)
    (hstored : Stored L a c' ({ p with inner := xs }.serve b x))
    (hgiven : (clerkAnswer b x.msg).bind (·.given) = none)
    (happlied : c'.applied = c.applied ++ handedBy [x.msg])
    (hfile : c'.snapshotFile = c.snapshotFile) :
    InStep codec L a c' ({ p with inner := xs }.serve b x) := by
  obtain ⟨hraft, hhistory, hinner, _⟩ := Process.serve_spec { p with inner := xs } b x
  apply h.take hp hstored hraft hhistory hinner _ happlied hfile
  rw [given_serve, hgiven]
  exact List.append_nil _

/-- A snapshot is written, and its label goes back to the core. -/
theorem InStep.write (h : InStep codec L a c p) (ha : 0 ≤ a) (hp : p.inner = x :: xs)
    (hstored : Stored L a c' ({ p with inner := xs }.serve b x)) (hl : l ∈ x.msg.takes)
    (hindex : l.1 = a + c.applied.length)
    (hgiven : (clerkAnswer b x.msg).bind (·.given) =
      if l.1 = -1 ∧ l.2 = 0 then none else some l)
    (happlied : c'.applied = c.applied)
    (hfile : ∀ data ∈ c'.snapshotFile,
      Labelled.Exact codec L { index := l.1, term := l.2, data := data }) :
    InStep codec L a c' ({ p with inner := xs }.serve b x) := by
  obtain ⟨hraft, hhistory, hinner, _⟩ := Process.serve_spec { p with inner := xs } b x
  apply h.label hp hstored hraft hhistory hinner _ happlied hfile hl hindex
  rw [given_serve, hgiven, if_neg (by omega)]
  rfl

/-- The store is the one that a snapshot was asked for. -/
theorem InStep.taken (h : InStep codec L a c p) (hcodec : codec.Faithful)
    (hp : p.inner = x :: xs) {q : GenerateSnapshotRequestMessage}
    (hx : x.msg = .generateSnapshotRequest q) {ps : List (Str × Str)}
    (hps : SortedMap.insertAll ∅ ps = mapAt L (a + c.applied.length)) :
    q.lastAppliedIndex = a + c.applied.length ∧
      Labelled.Exact codec L ⟨q.lastAppliedIndex, q.lastAppliedTerm, codec.serialize ps⟩ := by
  obtain ⟨hindex, hterm⟩ := h.asks x.msg (by rw [hp]; exact List.mem_cons_self)
    (q.lastAppliedIndex, q.lastAppliedTerm) (by rw [hx]; rfl)
  refine ⟨hindex, ⟨ps, hcodec ps, ?_⟩, hterm⟩
  rw [hps]
  exact congrArg (mapAt L) hindex.symm

/-- The label under which the file is sent is its own. -/
theorem InStep.sent (h : InStep codec L a c p) (hp : p.inner = x :: xs)
    {q : RaftInstallSnapshotRequestMessage} (hx : x.msg = .installSnapshotRequest q) {data : Str}
    (hdata : c.snapshotFile = some data) :
    Labelled.Exact codec L ⟨q.lastIncludedIndex, q.lastIncludedTerm, data⟩ := by
  have hships := h.ships x.msg (by rw [hp]; exact List.mem_cons_self)
    (q.lastIncludedIndex, q.lastIncludedTerm) (by rw [hx]; rfl)
  have hfile := h.file data hdata
  rw [← hships] at hfile
  exact hfile

theorem LabelsExact.of_eq (h : c.LabelsExact codec L) (hw : c'.written = c.written)
    (hs : c'.shipped = c.shipped) : c'.LabelsExact codec L := by
  constructor
  · rw [hw]
    exact h.written
  · rw [hs]
    exact h.shipped

theorem exact_concat {xs : List Labelled} {y : Labelled} (h : ∀ z ∈ xs, z.Exact codec L)
    (hy : y.Exact codec L) : ∀ z ∈ xs ++ [y], z.Exact codec L := by
  intro z hz
  rcases List.mem_append.mp hz with hz | hz
  · exact h z hz
  · rw [List.mem_singleton.mp hz]
    exact hy

/-- What the clerk writes and sends for a message is exact. -/
theorem InStep.exact (h : InStep codec L a c p) (hcodec : codec.Faithful)
    (hp : p.inner = x :: xs) {m : RaftMessage} (hm : x.msg = m)
    (hexact : c.LabelsExact codec L) (hat : Attends codec L a c m b c') :
    c'.LabelsExact codec L := by
  cases hat with
  | rests _ _ _ hs => exact hexact.of_eq hs.written hs.shipped
  | applies q _ _ hx hc => exact hexact.of_eq hc.written hc.shipped
  | takes q ps hps =>
    exact ⟨exact_concat hexact.written (h.taken hcodec hp hm hps).2, hexact.shipped⟩
  | installs q s => exact ⟨hexact.written, hexact.shipped⟩
  | ships q _ data hdata => exact ⟨hexact.written, exact_concat hexact.shipped (h.sent hp hm hdata)⟩

/-- What the clerk does for a message keeps the labels. -/
theorem InStep.attends (h : InStep codec L a c p) (ha : 0 ≤ a) (hcodec : codec.Faithful)
    (hp : p.inner = x :: xs) {m : RaftMessage} (hm : x.msg = m)
    (hat : Attends codec L a c m b c') (halive : c'.alive = true) :
    InStep codec L a c' ({ p with inner := xs }.serve b x) := by
  have hstored := h.toStored.attends hp hm hat halive
  cases hat with
  | rests _ _ _ hs hnone hgiven =>
    rw [← hm] at hnone hgiven
    apply h.idle hp hstored hgiven _ hs.snapshotFile
    rw [hs.applied, hnone, List.append_nil]
  | applies q _ _ hx hc =>
    apply h.idle hp hstored (by rw [hm]; rfl) _ hc.snapshotFile
    rw [hm, handedBy_request]
    exact (hc.done halive).1
  | takes q ps hps =>
    obtain ⟨hindex, hlabelled⟩ := h.taken hcodec hp hm hps
    apply h.write ha hp (l := (q.lastAppliedIndex, q.lastAppliedTerm)) hstored (by rw [hm]; rfl)
      hindex (by rw [hm]; rfl) rfl
    rintro _ ⟨⟩
    exact hlabelled
  | installs q s hindex hq hs =>
    apply h.write ha hp (l := (q.lastIncludedIndex, q.lastIncludedTerm)) hstored
      (by rw [hm]; rfl) hindex (by rw [hm]; rfl) rfl
    rintro _ ⟨⟩
    exact hq
  | ships q _ data hdata =>
    apply h.idle hp hstored (by rw [hm]; rfl) _ rfl
    rw [hm]
    exact (List.append_nil _).symm

end Attend

/-! ## Runs -/

theorem KeepsLabels.keepsStore {e : ClerkEvent} (h : c.KeepsLabels codec L a e) :
    c.KeepsStore codec L a e := ⟨h.follows, h.serves, h.forward⟩

/-- Every event keeps the labels. -/
theorem InStep.event {e : ClerkEvent} (h : InStep codec L a c c.process) (ha : 0 ≤ a)
    (hcodec : codec.Faithful) (hin : InTurn a c.process.raft c.process.channel c.process.handed)
    (hin' : p'.alive = true → InTurn a p'.raft p'.channel p'.handed)
    (hexact : c.LabelsExact codec L) (ho : c.KeepsLabels codec L a e)
    (he : Happens codec c e c' p') :
    c'.LabelsExact codec L ∧ (c'.alive = true → p'.alive = true → InStep codec L a c' p') := by
  have hstored := h.toStored.event ha hin ho.keepsStore he
  cases he with
  | turn t ys _ _ hturn hs hout hys hturned =>
    refine ⟨hexact.of_eq hs.written hs.shipped, fun halive hpalive => ?_⟩
    have hstored' : Stored L a c p' :=
      (hstored halive hpalive).same ⟨hs.applied.symm, hs.kvStore.symm, hs.snapshotFile.symm,
        hs.written.symm, hs.shipped.symm⟩
    apply InStep.same _ hs
    apply h.turn hstored' hin (hin' hpalive) (hturned hpalive) _ _ (ho.forward t hturn)
      (ho.mismatch t hturn) (ho.rest t hturn) (ho.ship t hturn)
    · rintro m rfl
      have hm : m ∈ ys.map (·.msg) := by
        rw [hys]
        exact List.mem_singleton_self m
      obtain ⟨y, hy, hmsg⟩ := List.mem_map.mp hm
      refine ⟨y, ?_, hmsg⟩
      rw [hout]
      exact List.mem_append_left _ hy
    · rw [hout, List.filterMap_append, given_of_taken hys]
  | arrives ys _ _ hs hraft hhistory hinner hout hys =>
    refine ⟨hexact.of_eq hs.written hs.shipped, fun halive hpalive => ?_⟩
    apply h.congr (hstored halive hpalive) hraft hhistory hinner _ hs.applied hs.snapshotFile
    rw [hout, List.filterMap_append, given_of_arrived hys, List.append_nil]
  | attends opens draws x xs he hinner =>
    subst he
    have hhead : x ∈ c.process.inner.head? := by
      rw [hinner]
      rfl
    have hat := h.toStored.attend ha hin hinner (ho.follows x hhead) (ho.serves x hhead) draws
    exact ⟨h.exact hcodec hinner rfl hexact hat,
      fun halive _ => h.attends ha hcodec hinner rfl hat halive⟩

/-- What holds in a run that keeps the labels: they fit while the process runs, and what has
been written and sent is exact also when it has ended. -/
structure LabelsKept (codec : SnapshotCodec) (L : LogOf) (id : Int) (ids : List Int)
    (file : Option RaftPersistData) (c : RaftClerk) : Prop where
  reaches : c.process.Reaches (Process.Obeys CommitsForward) id ids file
  exact : c.LabelsExact codec L
  inStep : c.alive = true → c.process.alive = true →
    InStep codec L (restart id ids file).lastIncludedIndex c c.process

section Runs

variable {id : Int} {ids : List Int} {addresses : List Str} {file : Option RaftPersistData}
  {snapshotFile : Option Str} {draws : List (List Bool)}

theorem LabelsKept.step {e : ClerkEvent} (h : LabelsKept codec L id ids file c)
    (ha : 0 ≤ (restart id ids file).lastIncludedIndex) (hcodec : codec.Faithful)
    (ho : c.KeepsLabels codec L (restart id ids file).lastIncludedIndex e)
    (hs : c.step codec e = some c') : LabelsKept codec L id ids file c' := by
  obtain ⟨halive, hpalive, p', hp', rfl⟩ := step_some hs
  have hreaches := reaches_stepAlive h.reaches hpalive ho.forward hp'
  have hin := inTurn_of_reaches h.reaches hpalive
  have hin' := ((upholds_inTurn _).reaches (inTurn_init id ids file) hreaches).1
  obtain ⟨hexact, hkept⟩ := (h.inStep halive hpalive).event ha hcodec hin hin' h.exact ho
    (happens_of_stepAlive hp')
  refine ⟨hreaches, hexact.of_eq rfl rfl, ?_⟩
  intro halive' hpalive'
  exact (hkept halive' hpalive').same ⟨rfl, rfl, rfl, rfl, rfl⟩

theorem covered_restart (id : Int) (ids : List Int) (file : Option RaftPersistData) :
    (restart id ids file).Covered := by
  cases file <;> exact Int.le_refl _

/-- The file of a node that has just been started is labelled with its point. -/
theorem Boots.labelled (h : Boots codec L file snapshotFile) :
    ∀ data ∈ snapshotFile, Labelled.Exact codec L
      ⟨(restart id ids file).lastIncludedIndex, (restart id ids file).lastIncludedTerm, data⟩ := by
  cases file with
  | none =>
    intro data hdata
    rw [show snapshotFile = none from h] at hdata
    cases hdata
  | some d =>
    rintro data ⟨⟩
    exact h.2

theorem labelsKept_init (hboot : Boots codec L file snapshotFile)
    (h : init codec draws id ids addresses file snapshotFile = some c) :
    LabelsKept codec L id ids file c := by
  have hstore := storeKept_init hboot h
  obtain ⟨s, hs, rfl⟩ := Option.map_eq_some_iff.mp h
  refine ⟨⟨[], .nil _⟩, ⟨nofun, nofun⟩, fun _ _ => ?_⟩
  exact
    { hstore.stored rfl rfl with
      file := hboot.labelled
      low := Int.le_refl _
      high := Int.le_add_of_nonneg_right (Int.le_refl 0)
      rising := List.pairwise_singleton _ _
      ships := nofun
      asks := nofun
      before := List.Pairwise.nil
      covered := covered_restart id ids file
      kept := nofun }

end Runs

/-- Every snapshot that is written or sent is the store after the entries up to its index,
with the term of the last one, in every run that keeps the labels. -/
theorem labelsExact_of_keepsLabels (codec : SnapshotCodec) (hcodec : codec.Faithful) (L : LogOf)
    (draws : List (List Bool)) (id : Int) (ids : List Int) (addresses : List Str)
    (file : Option RaftPersistData) (snapshotFile : Option Str)
    (hboot : Boots codec L file snapshotFile) (c : RaftClerk)
    (hr : Reaches (fun c e => c.KeepsLabels codec L (restart id ids file).lastIncludedIndex e)
      codec draws id ids addresses file snapshotFile c) : c.LabelsExact codec L := by
  obtain ⟨c₀, es, hinit, hr⟩ := hr
  have hkept : LabelsKept codec L id ids file c := by
    apply hr.invariant _ (labelsKept_init hboot hinit)
    intro s e t hs ho hst
    exact hs.step hboot.low hcodec ho hst
  exact hkept.exact

def putOf (k : Nat) : KVOperationRequestMessage :=
  { uuid := ['u'], seq := k, opType := .put, key := [Char.ofNat (96 + k)], value := ['1'] }

/-- A leader takes three writes, has them applied and a snapshot of them written, and takes
three more, which its peers are too far behind for. -/
def snapshotSent : List ClerkEvent :=
  [.electionTimeout, .response (.requestVoteResponse { term := 1, voteGranted := true }),
    .handle] ++
  List.replicate 4 (.clerk true []) ++
  [.operation (putOf 1), .handle, .operation (putOf 2), .handle, .operation (putOf 3), .handle] ++
  List.replicate 6 (.clerk true []) ++
  [.response (.appendEntriesResponse
      { term := 1, fromId := 1, success := true, lastLogIndex := 3 }), .handle,
    .clerk true [], .handle, .clerk true [], .handle,
    .operation (putOf 4), .handle, .operation (putOf 5), .handle, .operation (putOf 6), .handle] ++
  List.replicate 6 (.clerk true [])

theorem labels_exact_sent :
    ∃ c, Reaches (fun c e => c.KeepsLabels SnapshotData.codec putsLog
        (restart 0 [0, 1, 2] none).lastIncludedIndex e)
      SnapshotData.codec [] 0 [0, 1, 2] [] none none c ∧
      c.shipped.length = 3 ∧ c.LabelsExact SnapshotData.codec putsLog := by
  obtain ⟨c, hr, hq⟩ := Reaches.of_exec (fun c e => c.KeepsLabels SnapshotData.codec putsLog
      (restart 0 [0, 1, 2] none).lastIncludedIndex e) SnapshotData.codec [] 0 [0, 1, 2] [] none none
    snapshotSent (fun c => decide (c.shipped.length = 3)) (by decide +kernel)
  exact ⟨c, hr, of_decide_eq_true hq, labelsExact_of_keepsLabels SnapshotData.codec
    SnapshotData.faithful_codec putsLog [] 0 [0, 1, 2] [] none none rfl c hr⟩

/-- The three entries are applied too and the clerk has written the next snapshot, but the
core sends its old one once more before it learns of it. -/
def snapshotOvertakes : List ClerkEvent :=
  snapshotSent ++
  [.response (.appendEntriesResponse
      { term := 1, fromId := 1, success := true, lastLogIndex := 6 }), .handle,
    .clerk true [], .handle, .clerk true [], .heartbeatTimeout, .clerk true [], .clerk true []]

theorem label_overtaken :
    ¬ ∀ (codec : SnapshotCodec) (_ : codec.Faithful) (L : LogOf) (draws : List (List Bool))
      (id : Int) (ids : List Int) (addresses : List Str) (file : Option RaftPersistData)
      (snapshotFile : Option Str) (_ : Boots codec L file snapshotFile) (c : RaftClerk),
      Reaches (fun c e => c.Follows codec L e) codec draws id ids addresses file snapshotFile c →
        c.LabelsExact codec L := by
  intro h
  obtain ⟨c, hr, hq⟩ := Reaches.of_exec (fun c e => c.Follows SnapshotData.codec putsLog e)
    SnapshotData.codec [] 0 [0, 1, 2] [] none none snapshotOvertakes
    (fun c => decide (∃ x ∈ c.shipped, ¬ x.Exact SnapshotData.codec putsLog)) (by decide +kernel)
  obtain ⟨x, hx, hne⟩ := of_decide_eq_true hq
  exact hne ((h SnapshotData.codec SnapshotData.faithful_codec putsLog [] 0 [0, 1, 2] [] none none
    rfl c hr).shipped x hx)

end RaftClerk

end WWRaftKV
