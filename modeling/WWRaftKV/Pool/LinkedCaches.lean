/-
The central cache and the thread caches with their pointers.

Every loop over blocks moves the first block of one free list to the front of another one.
The list that is on the way between the caches is one of them.
-/
import WWRaftKV.Pool.LinkedPages
import WWRaftKV.Pool.Lists

namespace WWRaftKV

namespace Pool

open Chained (Chains Unused)

/-- The cache with the fronts and the counters of its lists. -/
def ThreadCache.linked (tc : ThreadCache) : LinkedCache := fun c => (tc c).linked

theorem linked_update (tc : ThreadCache) (c : Nat) (l : FreeList) :
    ThreadCache.linked (Function.update tc c l) = Function.update tc.linked c l.linked := by
  funext d
  unfold ThreadCache.linked
  by_cases hd : d = c
  · rw [hd, Function.update_self, Function.update_self]
  · rw [Function.update_of_ne hd, Function.update_of_ne hd]

/-! ## One block -/

section Lists

variable {F : Nat → Prop} {w₀ w : Words} {g : ListId → List Addr} {i j : ListId}
  {l l' : FreeList} {x : Addr} {head : List Addr}

/-- Two lists are given. -/
def put (g : ListId → List Addr) (i : ListId) (l : List Addr) (j : ListId) (l' : List Addr) :
    ListId → List Addr :=
  Function.update (Function.update g i l) j l'

theorem put_self (hi : g i = l.chain) (hj : g j = head) : put g i l.chain j head = g := by
  rw [put, ← hi, Function.update_eq_self, ← hj, Function.update_eq_self]

theorem put_first (hij : i ≠ j) (a b : List Addr) : put g i a j b i = a := by
  rw [put, Function.update_of_ne hij, Function.update_self]

theorem put_second (a b : List Addr) : put g i a j b j = b := Function.update_self ..

theorem put_put (hij : i ≠ j) (a b a' b' : List Addr) :
    put (put g i a j b) i a' j b' = put g i a' j b' := by
  unfold put
  rw [Function.update_comm (Ne.symm hij), Function.update_idem, Function.update_idem]

/-- A list is empty when its front is null. -/
theorem linked_empty (h : Chains slot nullptr F w₀ w g) (hi : g i = l.chain) :
    l.linked.empty = l.chain.isEmpty := by
  have hchain := h.chain i
  rw [hi] at hchain
  unfold LinkedList.empty
  rw [Bool.eq_iff_iff, decide_eq_true_iff, List.isEmpty_iff]
  exact hchain.head_eq_null_iff

theorem linked_pushFront (w : Words) (l : FreeList) (x : Addr) :
    l.linked.pushFront w x =
      (Function.update w (slot x) (l.chain.headD nullptr), (l.pushFront x).linked) := by
  have hsize : (l.chain.length % 2 ^ 64 + 1) % 2 ^ 64 = (l.chain.length + 1) % 2 ^ 64 := by
    omega
  unfold LinkedList.pushFront FreeList.linked
  rw [hsize]
  rfl

theorem linked_popFront (h : Chains slot nullptr F w₀ w g) (hi : g i = l.chain)
    (hpop : l.popFront = some (x, l')) : l.linked.popFront w = some (x, l'.linked) := by
  obtain ⟨hchain, hmax⟩ := FreeList.of_popFront hpop
  rw [hchain] at hi
  obtain ⟨hlink, hne, -, -⟩ := h.pop hi
  have hfront : l.linked.front = x := by
    unfold FreeList.linked
    rw [hchain]
    rfl
  have hsize : ((l'.chain.length + 1) % 2 ^ 64 + 2 ^ 64 - 1) % 2 ^ 64 =
      l'.chain.length % 2 ^ 64 := by
    omega
  have hempty : ¬ l.linked.empty = true := by
    unfold LinkedList.empty
    rw [hfront, decide_eq_true_iff]
    exact hne
  unfold LinkedList.popFront
  rw [if_neg hempty, hfront, hlink]
  unfold FreeList.linked
  dsimp only
  rw [hchain, List.length_cons, hsize, ← hmax]

/-- The first block of a list is taken, and put before another one. -/
theorem move_front (h : Chains slot nullptr F w₀ w g) (hij : i ≠ j) (hi : g i = l.chain)
    (hj : g j = head) (hpop : l.popFront = some (x, l')) :
    Chains slot nullptr F w₀ (Function.update w (slot x) (head.headD nullptr))
      (put g i l'.chain j (x :: head)) := by
  rw [(FreeList.of_popFront hpop).1] at hi
  obtain ⟨-, hmoved⟩ := h.shift hij hi
  rw [hj] at hmoved
  exact hmoved

/-! ## The loops -/

/-- The loop of `_ReturnToCentralCache`. -/
theorem takeLoop_linked (nums : Nat) {head' : List Addr} (h : Chains slot nullptr F w₀ w g)
    (hij : i ≠ j) (hi : g i = l.chain) (hj : g j = head)
    (hrun : ThreadCache.takeLoop nums l head = some (l', head')) :
    ∃ w', LinkedCache.takeLoop nums w l.linked (head.headD nullptr) =
        some (w', l'.linked, head'.headD nullptr) ∧
      Chains slot nullptr F w₀ w' (put g i l'.chain j head') := by
  induction nums generalizing w g l head with
  | zero =>
    cases hrun
    rw [put_self hi hj]
    exact ⟨w, rfl, h⟩
  | succ nums ih =>
    obtain ⟨⟨x, rest⟩, hpop, hrun⟩ := Option.bind_eq_some_iff.mp hrun
    have hmoved := move_front h hij hi hj hpop
    obtain ⟨w', hrun', hchains⟩ := ih hmoved (put_first hij _ _) (put_second _ _) hrun
    rw [put_put hij] at hchains
    refine ⟨w', ?_, hchains⟩
    rw [LinkedCache.takeLoop, linked_popFront h hi hpop]
    exact hrun'

/-- The loop of `fetchRange`. -/
theorem fetchLoop_linked (count : Nat) {a a' : Span} {head' : List Addr}
    (h : Chains slot nullptr F w₀ w g) (hij : i ≠ j) (hi : g i = a.freeList.chain)
    (hj : g j = head) (hrun : CentralCache.fetchLoop count a head = some (a', head')) :
    ∃ w', Memory.fetchLoop count w a.linked (head.headD nullptr) =
        some (w', a'.linked, head'.headD nullptr) ∧
      Chains slot nullptr F w₀ w' (put g i a'.freeList.chain j head') := by
  induction count generalizing w g a head with
  | zero =>
    cases hrun
    rw [put_self hi hj]
    exact ⟨w, rfl, h⟩
  | succ count ih =>
    obtain ⟨⟨x, rest⟩, hpop, hrun⟩ := Option.bind_eq_some_iff.mp hrun
    have hmoved := move_front h hij hi hj hpop
    have hempty : rest.linked.empty = rest.chain.isEmpty :=
      linked_empty hmoved (put_first hij _ _)
    rw [Memory.fetchLoop, show a.linked.freeList = a.freeList.linked from rfl,
      linked_popFront h hi hpop]
    simp only [Option.bind_eq_bind, Option.bind_some]
    rw [hempty]
    dsimp only at hrun
    split at hrun
    next hlast =>
      cases hrun
      rw [if_pos hlast]
      exact ⟨_, rfl, hmoved⟩
    next hlast =>
      rw [if_neg hlast]
      obtain ⟨w', hrun', hchains⟩ := ih hmoved (put_first hij _ _) (put_second _ _) hrun
      rw [put_put hij] at hchains
      exact ⟨w', hrun', hchains⟩

/-- The loop of `_FetchFromCentralCache`. -/
theorem pushAll_linked (rounds : Nat) (h : Chains slot nullptr F w₀ w g) (hij : i ≠ j)
    (hi : g i = l.chain) (hj : g j = head) (hlen : head.length < rounds) :
    ∃ w', LinkedCache.pushAll rounds w l.linked (head.headD nullptr) =
        some (w', (head.foldl FreeList.pushFront l).linked) ∧
      Chains slot nullptr F w₀ w' (put g i (head.foldl FreeList.pushFront l).chain j []) := by
  induction head generalizing w g l rounds with
  | nil =>
    obtain ⟨rounds, rfl⟩ := Nat.exists_eq_succ_of_ne_zero (Nat.ne_of_gt hlen)
    rw [List.foldl_nil, put_self hi hj]
    exact ⟨w, if_pos rfl, h⟩
  | cons x head ih =>
    obtain ⟨rounds, rfl⟩ := Nat.exists_eq_succ_of_ne_zero (Nat.ne_zero_of_lt hlen)
    rw [List.length_cons] at hlen
    obtain ⟨hlink, hmoved⟩ := h.shift (Ne.symm hij) hj
    have hne : x ≠ nullptr := (h.pop hj).2.1
    rw [hi] at hmoved
    have hi' : Function.update (Function.update g j head) i (x :: l.chain) i =
        (l.pushFront x).chain := Function.update_self ..
    have hj' : Function.update (Function.update g j head) i (x :: l.chain) j = head := by
      rw [Function.update_of_ne (Ne.symm hij), Function.update_self]
    obtain ⟨w', hrun', hchains⟩ := ih rounds hmoved hi' hj' (by omega)
    have hput : put (Function.update (Function.update g j head) i (x :: l.chain)) i
        (head.foldl FreeList.pushFront (l.pushFront x)).chain j [] =
        put g i (head.foldl FreeList.pushFront (l.pushFront x)).chain j [] := by
      rw [← put, put, put, put, Function.update_idem, Function.update_comm (Ne.symm hij),
        Function.update_idem]
    rw [hput] at hchains
    refine ⟨w', ?_, hchains⟩
    rw [LinkedCache.pushAll, List.headD_cons, if_neg hne, linked_pushFront, hlink]
    exact hrun'

/-- The loop that hangs the blocks on the free list. -/
theorem carve_linked {xs : List Addr} (h : Chains slot nullptr F w₀ w g) (hi : g i = l.chain)
    (hxs : ∀ x ∈ xs, x ≠ nullptr ∧ Unused slot F g (slot x)) (hnodup : (xs.map slot).Nodup) :
    ∃ w', xs.foldl (fun r object => LinkedList.pushFront r.1 r.2 object) (w, l.linked) =
        (w', (xs.foldl FreeList.pushFront l).linked) ∧
      Chains slot nullptr F w₀ w' (Function.update g i (xs.foldl FreeList.pushFront l).chain) := by
  induction xs generalizing w g l with
  | nil =>
    rw [List.foldl_nil, List.foldl_nil, ← hi, Function.update_eq_self]
    exact ⟨w, rfl, h⟩
  | cons x xs ih =>
    obtain ⟨hx, hrest⟩ := List.nodup_cons.mp hnodup
    obtain ⟨hne, hunused⟩ := hxs x List.mem_cons_self
    have hpush := h.push (i := i) hne hunused
    rw [hi] at hpush
    have hi' : Function.update g i (x :: l.chain) i = (l.pushFront x).chain :=
      Function.update_self ..
    have hxs' : ∀ y ∈ xs, y ≠ nullptr ∧
        Unused slot F (Function.update g i (x :: l.chain)) (slot y) := by
      intro y hy
      obtain ⟨hney, hun⟩ := hxs y (List.mem_cons_of_mem _ hy)
      have hxy : slot x ≠ slot y := by
        intro hsame
        apply hx
        rw [hsame]
        exact List.mem_map_of_mem hy
      rw [← hi]
      exact ⟨hney, Chains.unused_push hun hxy⟩
    obtain ⟨w', hrun', hchains⟩ := ih hpush hi' hxs' hrest
    rw [Function.update_idem] at hchains
    refine ⟨w', ?_, hchains⟩
    rw [List.foldl_cons]
    dsimp only
    rw [linked_pushFront]
    exact hrun'

end Lists

/-! ## The central cache -/

namespace Memory

namespace Holds

variable {F : Nat → Prop} {w₀ : Words} {m : Memory} {cc cc' : CentralCache}
  {caches : Nat → Option ThreadCache} {moving : List Addr} {s : SpanId} {a b : Span}

/-- Words are written and lists are moved, and the spans stay. -/
theorem rewrite (h : Holds F w₀ m cc caches moving) {w : Words}
    {caches' : Nat → Option ThreadCache} {moving' : List Addr}
    (hw : Chains slot nullptr F w₀ w (chains cc.pageCache.heap caches' moving')) :
    Holds F w₀ { m with words := w } cc caches' moving' :=
  { h with words := hw }

/-- A span gets another free list. -/
theorem setBlocks (h : Holds F w₀ m cc caches moving) (ha : cc.pageCache.heap s = some a)
    {w : Words} {moving' : List Addr}
    (hw : Chains slot nullptr F w₀ w
      (Function.update (chains cc.pageCache.heap caches moving') (.span s) b.freeList.chain)) :
    Holds F w₀ (Memory.setSpan { m with words := w } s b.linked) (cc.setSpan s b) caches
      moving' :=
  { h with
    heap := h.heap_update s (some b)
    present := h.present_set ha b
    words := by
      have hb : Function.update (chains cc.pageCache.heap caches moving') (.span s)
          b.freeList.chain =
          chains (Function.update cc.pageCache.heap s (some b)) caches moving' :=
        (chains_span (some b)).symm
      rw [hb] at hw
      exact hw }

/-- There are no more spans in a list than there have been. -/
theorem length_list (h : Holds F w₀ m cc caches moving)
    (hfresh : ∀ s : Nat, cc.pageCache.nextSpan ≤ s → cc.pageCache.heap s = none)
    (l : SpanListId) : (cc.list l).length ≤ m.nextSpan := by
  have hnodup : (cc.list l).Nodup :=
    List.Nodup.of_map Node.span (List.nodup_cons.mp (h.rings.ring l).nodup).2
  have hsub : ∀ s ∈ cc.list l, s ∈ List.range m.nextSpan := by
    intro s hs
    rw [List.mem_range, h.nextSpan]
    apply Nat.lt_of_not_le
    intro hle
    exact h.loose_of_none (hfresh s hle) l hs
  have hlen := (hnodup.subperm hsub).length_le
  rwa [List.length_range] at hlen

/-- The loop of `_GetFreeSpan`, from any node of the ring on. -/
theorem findFree (h : Holds F w₀ m cc caches moving) {l : SpanListId} (rounds : Nat) {n : Node}
    {ss : List SpanId} {o : Option SpanId} (hpath : m.nodes.Path n (ss.map Node.span) (.head l))
    (hlen : ss.length < rounds)
    (hrun : CentralCache.findFree cc.pageCache.heap ss = some o) :
    m.findFree l rounds ((ss.map Node.span).headD (.head l)) = some o := by
  induction ss generalizing n rounds with
  | nil =>
    obtain ⟨rounds, rfl⟩ := Nat.exists_eq_succ_of_ne_zero (Nat.ne_of_gt hlen)
    cases hrun
    exact if_pos rfl
  | cons s ss ih =>
    obtain ⟨rounds, rfl⟩ := Nat.exists_eq_succ_of_ne_zero (Nat.ne_zero_of_lt hlen)
    rw [List.length_cons] at hlen
    obtain ⟨a, ha, hrun⟩ := Option.bind_eq_some_iff.mp hrun
    have hempty : a.linked.freeList.empty = a.freeList.chain.isEmpty :=
      linked_empty h.words (chains_of_span ha)
    have hnext : m.nodes.next (.span s) = some ((ss.map Node.span).headD (.head l)) :=
      hpath.2.2.next
    unfold Memory.findFree
    rw [List.map_cons, List.headD_cons, if_neg (fun e => nomatch e)]
    dsimp only
    rw [h.heap_some ha]
    simp only [Option.bind_eq_bind, Option.bind_some]
    rw [hempty]
    split at hrun
    next hnone =>
      rw [if_pos hnone, hnext, Option.bind_some]
      exact ih rounds hpath.2.2 (by omega) hrun
    next hsome =>
      rw [if_neg hsome]
      exact hrun

/-- The blocks that a fresh span is cut into have words of their own. -/
def Carvable (F : Nat → Prop) (cc : CentralCache) (caches : Nat → Option ThreadCache) (size : Nat)
    (system : Option Addr) : Prop :=
  ∀ pc' s a, cc.pageCache.fetchSpan (CentralCache.pageCountFor size) system = some (pc', some s) →
    pc'.heap s = some a → ((CentralCache.blocksOf a size).map slot).Nodup ∧
      ∀ x ∈ CentralCache.blocksOf a size, x ≠ nullptr ∧
        Unused slot F (chains pc'.heap caches []) (slot x)

section Fetch

variable {size count : Nat} {system : Option Addr}

theorem getFreeSpan (h : Holds F w₀ m cc caches [])
    (hfresh : ∀ s : Nat, cc.pageCache.nextSpan ≤ s → cc.pageCache.heap s = none)
    (hcarve : Carvable F cc caches size system) {o : Option SpanId}
    (hrun : cc.getFreeSpan size system = some (cc', o)) :
    ∃ m', m.getFreeSpan size system = some (m', o) ∧ Holds F w₀ m' cc' caches [] := by
  obtain ⟨found, hfound, hrun⟩ := Option.bind_eq_some_iff.mp hrun
  have hring := h.rings.ring (.central (Size.sizeToIndex size))
  have hlen := h.length_list hfresh (.central (Size.sizeToIndex size))
  have hfind := h.findFree (l := .central (Size.sizeToIndex size)) (m.nextSpan + 1) hring.path
    (Nat.lt_succ_of_le hlen) hfound
  rw [Memory.getFreeSpan, hring.next]
  simp only [Option.bind_eq_bind, Option.bind_some]
  rw [nodesOf, hfind, Option.bind_some]
  cases found with
  | some s =>
    cases hrun
    exact ⟨m, rfl, h⟩
  | none =>
    obtain ⟨⟨pc', o'⟩, hfetch, hrun⟩ := Option.bind_eq_some_iff.mp hrun
    obtain ⟨m₁, hrun₁, h₁, hloose⟩ := h.fetchSpan hfresh hfetch
    dsimp only
    rw [hrun₁, Option.bind_some]
    cases o' with
    | none =>
      cases hrun
      exact ⟨m₁, rfl, h₁⟩
    | some s =>
      obtain ⟨a, ha, hrun⟩ := Option.bind_eq_some_iff.mp hrun
      cases hrun
      obtain ⟨hnodup, hblocks⟩ := hcarve pc' s a hfetch ha
      obtain ⟨w, hcut, hwords⟩ := carve_linked (l := a.freeList) h₁.words (chains_of_span ha)
        hblocks hnodup
      have h₂ := h₁.setBlocks (b := CentralCache.carve a size) ha hwords
      obtain ⟨m', hpush, h'⟩ := h₂.pushFront (hloose s rfl) (Function.update_self ..)
        (.central (Size.sizeToIndex size))
      refine ⟨m', ?_, h'⟩
      have hcarved : Memory.carve m₁.words a.linked size =
          (w, (CentralCache.carve a size).linked) := by
        unfold Memory.carve
        rw [show a.linked.freeList = a.freeList.linked from rfl]
        rw [show CentralCache.blocksOf a.linked.pages size = CentralCache.blocksOf a size from
          blocksOf_congr rfl, hcut]
        rfl
      dsimp only
      rw [h₁.heap_some ha, Option.bind_some, hcarved]
      dsimp only
      rw [hpush]
      rfl

theorem fetchRange (h : Holds F w₀ m cc caches [])
    (hfresh : ∀ s : Nat, cc.pageCache.nextSpan ≤ s → cc.pageCache.heap s = none)
    (hcarve : Carvable F cc caches size system) {objects : List Addr}
    (hrun : cc.fetchRange size count system = some (cc', objects)) :
    ∃ m', m.fetchRange size count system = some (m', objects.headD nullptr) ∧
      Holds F w₀ m' cc' caches objects := by
  obtain ⟨⟨cc₁, o⟩, hspan, hrun⟩ := Option.bind_eq_some_iff.mp hrun
  obtain ⟨m₁, hrun₁, h₁⟩ := h.getFreeSpan hfresh hcarve hspan
  cases o with
  | none => cases hrun
  | some s =>
    obtain ⟨a, ha, hrun⟩ := Option.bind_eq_some_iff.mp hrun
    obtain ⟨⟨b, head⟩, hloop, hrun⟩ := Option.bind_eq_some_iff.mp hrun
    cases hrun
    obtain ⟨w, hrun₂, hwords⟩ := fetchLoop_linked count (i := .span s) (j := .moving) h₁.words
      (by simp) (chains_of_span ha) rfl hloop
    have hput : put (chains cc₁.pageCache.heap caches []) (.span s) b.freeList.chain .moving
        objects = Function.update (chains cc₁.pageCache.heap caches objects) (.span s)
          b.freeList.chain := by
      rw [put, chains_moving [] objects, Function.update_comm (by simp)]
    rw [hput] at hwords
    refine ⟨_, ?_, h₁.setBlocks ha hwords⟩
    rw [Memory.fetchRange, hrun₁]
    simp only [Option.bind_eq_bind, Option.bind_some]
    rw [h₁.heap_some ha, Option.bind_some]
    have hloop' : Memory.fetchLoop count m₁.words a.linked nullptr =
        some (w, b.linked, objects.headD nullptr) := hrun₂
    rw [hloop']
    rfl

end Fetch

section Return

variable {index : Nat} {x : Addr} {rest objects : List Addr}

/-- `returnRange` takes one block. -/
theorem returnObject (h : Holds F w₀ m cc caches (x :: rest))
    (hrun : cc.returnObject index x = some cc') :
    ∃ m', m.returnObject x = some m' ∧ Holds F w₀ m' cc' caches rest := by
  have hmoving : chains cc.pageCache.heap caches (x :: rest) .moving = x :: rest := rfl
  obtain ⟨-, -, hpop, hunused⟩ := h.words.pop hmoving
  rw [← chains_moving] at hpop hunused
  obtain ⟨o, hfind, hrun⟩ := Option.bind_eq_some_iff.mp hrun
  rw [← h.objectToSpan_eq] at hfind
  rw [Memory.returnObject, hfind]
  simp only [Option.bind_eq_bind, Option.bind_some]
  cases o with
  | none =>
    cases hrun
    exact ⟨m, rfl, h.rewrite hpop⟩
  | some s =>
    obtain ⟨a, ha, hrun⟩ := Option.bind_eq_some_iff.mp hrun
    obtain ⟨n, hn⟩ : ∃ n, n = (a.used + 2 ^ 64 - 1) % 2 ^ 64 := ⟨_, rfl⟩
    dsimp only at hrun ⊢
    rw [← hn] at hrun
    rw [h.heap_some ha, Option.bind_some, show a.linked.freeList = a.freeList.linked from rfl,
      show a.linked.used = a.used from rfl, ← hn, linked_pushFront]
    dsimp only
    have hhere : chains cc.pageCache.heap caches rest (.span s) = a.freeList.chain :=
      chains_of_span ha
    split at hrun
    next hzero =>
      rw [if_pos hzero]
      obtain ⟨list, herase, hrun⟩ := Option.bind_eq_some_iff.mp hrun
      obtain ⟨pc', hreturn, hrun⟩ := Option.bind_eq_some_iff.mp hrun
      cases hrun
      unfold eraseSpan at herase
      split at herase
      next hmem =>
        cases herase
        have hwrite := h.rewrite
          (hpop.write (v := a.freeList.chain.headD nullptr) hunused)
        obtain ⟨m₁, herase₁, h₁, hloose⟩ := hwrite.erase (l := .central index) hmem
        have h₂ := h₁.setSpan (b := { a with freeList := FreeList.new, used := n }) ha (.inr rfl)
        obtain ⟨m', hrun', h'⟩ := h₂.returnSpan hloose hreturn
        refine ⟨m', ?_, h'⟩
        rw [herase₁, Option.bind_some]
        exact hrun'
      next => cases herase
    next hused =>
      rw [if_neg hused]
      cases hrun
      have hpush := hpop.push (i := .span s) (h.words.pop hmoving).2.1 hunused
      rw [hhere] at hpush
      exact ⟨_, rfl, h.setBlocks (b := { a with freeList := a.freeList.pushFront x, used := n })
        ha hpush⟩

theorem returnRange {size : Nat} (rounds : Nat) (h : Holds F w₀ m cc caches objects)
    (hrun : cc.returnRange size objects = some cc') (hlen : objects.length < rounds) :
    ∃ m', m.returnRange rounds (objects.headD nullptr) = some m' ∧ Holds F w₀ m' cc' caches [] := by
  induction objects generalizing m cc rounds with
  | nil =>
    obtain ⟨rounds, rfl⟩ := Nat.exists_eq_succ_of_ne_zero (Nat.ne_of_gt hlen)
    cases hrun
    exact ⟨m, if_pos rfl, h⟩
  | cons x rest ih =>
    obtain ⟨rounds, rfl⟩ := Nat.exists_eq_succ_of_ne_zero (Nat.ne_zero_of_lt hlen)
    rw [List.length_cons] at hlen
    obtain ⟨hne, hlink, -⟩ := h.words.chain .moving
    obtain ⟨cc₁, hobject, hrun⟩ := Option.bind_eq_some_iff.mp hrun
    obtain ⟨m₁, hrun₁, h₁⟩ := h.returnObject hobject
    obtain ⟨m', hrun', h'⟩ := ih rounds h₁ hrun (by omega)
    refine ⟨m', ?_, h'⟩
    rw [Memory.returnRange, List.headD_cons, if_neg hne, hlink, hrun₁]
    exact hrun'

end Return

/-! ## Thread caches -/

section Caches

variable {tc tc' : ThreadCache} {thread size index nums : Nat} {system : Option Addr}
  {l : FreeList}

/-- The lists of the pool when one list of a cache is another. -/
theorem put_cache (ht : caches thread = some tc) (head : List Addr) (w : Words)
    (hw : Chains slot nullptr F w₀ w (put (chains cc.pageCache.heap caches moving)
      (.cache thread index) l.chain .moving head)) :
    Chains slot nullptr F w₀ w (chains cc.pageCache.heap
      (Function.update caches thread (some (Function.update tc index l))) head) := by
  rw [chains_cache ht, chains_moving moving head, Function.update_comm (by simp)]
  exact hw

/-- `_FetchFromCentralCache`. -/
theorem fetchFromCentralCache (h : Holds F w₀ m cc caches []) (ht : caches thread = some tc)
    (hfresh : ∀ s : Nat, cc.pageCache.nextSpan ≤ s → cc.pageCache.heap s = none)
    (hcarve : Carvable F cc caches size system)
    (hrun : tc.fetchFromCentralCache cc size system = some (cc', tc')) :
    ∃ m', tc.linked.fetchFromCentralCache m size system = some (m', tc'.linked) ∧
      Holds F w₀ m' cc' (Function.update caches thread (some tc')) [] := by
  obtain ⟨c, hc⟩ : ∃ c, c = Size.sizeToIndex size := ⟨_, rfl⟩
  obtain ⟨count, hcount⟩ : ∃ count, count =
      if (tc c).maxSize > maxBlockNum then maxBlockNum else (tc c).maxSize := ⟨_, rfl⟩
  obtain ⟨⟨cc₁, objects⟩, hrange, hrun⟩ := Option.bind_eq_some_iff.mp hrun
  rw [← hc, ← hcount] at hrange hrun
  cases hrun
  obtain ⟨m₁, hrun₁, h₁⟩ := h.fetchRange hfresh hcarve hrange
  have hlen := ThreadCache.fetchRange_length hrange
  have hmoving : chains cc'.pageCache.heap caches objects .moving = objects := rfl
  obtain ⟨w, hloop, hwords⟩ := pushAll_linked (count + 1) (i := .cache thread c) (j := .moving)
    (l := tc c) h₁.words (by simp) (chains_of_cache ht c) hmoving (by omega)
  refine ⟨{ m₁ with words := w }, ?_, h₁.rewrite (put_cache ht [] w hwords)⟩
  rw [LinkedCache.fetchFromCentralCache, ← hc]
  dsimp only
  rw [show (tc.linked c).maxSize = (tc c).maxSize from rfl, ← hcount, hrun₁]
  simp only [Option.bind_eq_bind, Option.bind_some]
  rw [show tc.linked c = (tc c).linked from rfl, hloop, linked_update]
  rfl

theorem takeLoop_length {nums : Nat} {l l' : FreeList} {head head' : List Addr}
    (h : ThreadCache.takeLoop nums l head = some (l', head')) :
    head'.length = head.length + nums := by
  induction nums generalizing l head with
  | zero =>
    cases h
    rfl
  | succ nums ih =>
    obtain ⟨⟨x, rest⟩, -, h⟩ := Option.bind_eq_some_iff.mp h
    rw [ih h, List.length_cons]
    omega

/-- `_ReturnToCentralCache`. -/
theorem returnToCentralCache (h : Holds F w₀ m cc caches []) (ht : caches thread = some tc)
    (hrun : tc.returnToCentralCache cc index nums = some (cc', tc')) :
    ∃ m', tc.linked.returnToCentralCache m index nums = some (m', tc'.linked) ∧
      Holds F w₀ m' cc' (Function.update caches thread (some tc')) [] := by
  obtain ⟨⟨l, head⟩, htake, hrun⟩ := Option.bind_eq_some_iff.mp hrun
  obtain ⟨cc₁, hreturn, hrun⟩ := Option.bind_eq_some_iff.mp hrun
  cases hrun
  have hlen := takeLoop_length htake
  rw [List.length_nil, Nat.zero_add] at hlen
  obtain ⟨w, hloop, hwords⟩ := takeLoop_linked nums (i := .cache thread index) (j := .moving)
    h.words (by simp) (chains_of_cache ht index) rfl htake
  have h₁ := h.rewrite (put_cache ht head w hwords)
  obtain ⟨m', hrun', h'⟩ := h₁.returnRange (nums + 1) hreturn (by omega)
  refine ⟨m', ?_, h'⟩
  rw [LinkedCache.returnToCentralCache, show tc.linked index = (tc index).linked from rfl]
  have hloop' : LinkedCache.takeLoop nums m.words (tc index).linked nullptr =
      some (w, l.linked, head.headD nullptr) := hloop
  rw [hloop']
  simp only [Option.bind_eq_bind, Option.bind_some]
  rw [hrun', linked_update]
  rfl

theorem update_cache (ht : caches thread = some tc) :
    Function.update caches thread (some tc) = caches := by
  rw [← ht]
  exact Function.update_eq_self ..

/-- The first block of a list of the cache is taken. -/
theorem popCache (h : Holds F w₀ m cc caches []) (ht : caches thread = some tc) {p : Addr}
    (hpop : (tc index).popFront = some (p, l)) :
    (tc.linked index).popFront m.words = some (p, l.linked) ∧
      Holds F w₀ m cc (Function.update caches thread (some (Function.update tc index l))) [] := by
  have hi : chains cc.pageCache.heap caches [] (.cache thread index) = (tc index).chain :=
    chains_of_cache ht index
  refine ⟨linked_popFront h.words hi hpop, h.rewrite ?_⟩
  rw [(FreeList.of_popFront hpop).1] at hi
  rw [chains_cache ht]
  exact (h.words.pop hi).2.2.1

/-- A block that is on no list is put before a list of the cache. -/
theorem pushCache (h : Holds F w₀ m cc caches []) (ht : caches thread = some tc) (index : Nat)
    {p : Addr} (hne : p ≠ nullptr)
    (hp : Unused slot F (chains cc.pageCache.heap caches []) (slot p)) :
    ∃ w, (tc.linked index).pushFront m.words p = (w, ((tc index).pushFront p).linked) ∧
      Holds F w₀ { m with words := w } cc (Function.update caches thread
        (some (Function.update tc index ((tc index).pushFront p)))) [] := by
  have hi : chains cc.pageCache.heap caches [] (.cache thread index) = (tc index).chain :=
    chains_of_cache ht index
  refine ⟨_, linked_pushFront m.words (tc index) p, h.rewrite ?_⟩
  have hpush := h.words.push (i := .cache thread index) hne hp
  rw [hi] at hpush
  rw [chains_cache ht]
  exact hpush

/-- The counter is the length as long as the length fits. -/
theorem linked_shouldReturn (tc : ThreadCache) (hshort : (tc index).chain.length < 2 ^ 64) :
    tc.linked.shouldReturn index = tc.shouldReturn index := by
  have hsize : (tc.linked index).size = (tc index).chain.length := Nat.mod_eq_of_lt hshort
  unfold LinkedCache.shouldReturn ThreadCache.shouldReturn
  rw [hsize]
  rfl

/-- `allocate` of a managed size fetches if the list is empty, and takes the front. -/
theorem linked_allocate (tc : LinkedCache) (m : Memory) (system : Option Addr)
    (hsize : ThreadCache.Managed size) (hc : Size.sizeToIndex (Size.roundUp size) = index) :
    tc.allocate m size system =
      ((if (tc index).empty then tc.fetchFromCentralCache m (Size.roundUp size) system
        else some (m, tc)).bind fun r => ((r.2 index).popFront r.1.words).bind fun q =>
          some (r.1, Function.update r.2 index q.2, .block q.1)) := by
  unfold ThreadCache.Managed at hsize
  rw [LinkedCache.allocate, if_neg (by omega), if_neg (by omega)]
  dsimp only
  rw [hc]
  split <;> rfl

/-- `allocate`. -/
theorem allocate (h : Holds F w₀ m cc caches []) (ht : caches thread = some tc)
    (hfresh : ∀ s : Nat, cc.pageCache.nextSpan ≤ s → cc.pageCache.heap s = none)
    (hcarve : Carvable F cc caches (Size.roundUp size) system)
    (hsize : ThreadCache.Managed size) {r : ThreadCache.Allocation}
    (hrun : tc.allocate cc size system = some (cc', tc', r)) :
    ∃ m', tc.linked.allocate m size system = some (m', tc'.linked, r) ∧
      Holds F w₀ m' cc' (Function.update caches thread (some tc')) [] := by
  obtain ⟨c, hc⟩ : ∃ c, Size.sizeToIndex (Size.roundUp size) = c := ⟨_, rfl⟩
  rw [ThreadCache.allocate_managed tc cc system hsize hc] at hrun
  rw [linked_allocate tc.linked m system hsize hc]
  obtain ⟨⟨cc₁, tc₁⟩, hfetch, hrun⟩ := Option.bind_eq_some_iff.mp hrun
  obtain ⟨⟨p, l⟩, hpop, hrun⟩ := Option.bind_eq_some_iff.mp hrun
  cases hrun
  have hempty : (tc.linked c).empty = (tc c).chain.isEmpty :=
    linked_empty h.words (chains_of_cache ht c)
  -- a block is there, or it is fetched
  obtain ⟨m₁, hrun₁, h₁⟩ : ∃ m₁, (if (tc.linked c).empty = true then
      tc.linked.fetchFromCentralCache m (Size.roundUp size) system else some (m, tc.linked)) =
        some (m₁, tc₁.linked) ∧
      Holds F w₀ m₁ cc₁ (Function.update caches thread (some tc₁)) [] := by
    rw [hempty]
    split at hfetch
    next hnone =>
      rw [if_pos hnone]
      exact h.fetchFromCentralCache ht hfresh hcarve hfetch
    next hsome =>
      cases hfetch
      rw [if_neg hsome, update_cache ht]
      exact ⟨m, rfl, h⟩
  obtain ⟨hpop₁, h₂⟩ := h₁.popCache (Function.update_self ..) hpop
  rw [Function.update_idem] at h₂
  refine ⟨m₁, ?_, h₂⟩
  rw [hrun₁, Option.bind_some, hpop₁, linked_update]
  rfl

/-- `deallocate` of a block that is on no list. -/
theorem deallocate (h : Holds F w₀ m cc caches []) (ht : caches thread = some tc)
    (hbound : tc.Bounded) (hsize : ThreadCache.Managed size) {p : Addr} (hne : p ≠ nullptr)
    (hp : Unused slot F (chains cc.pageCache.heap caches []) (slot p))
    (hrun : tc.deallocate cc p size = some (cc', tc')) :
    ∃ m', tc.linked.deallocate m p size = some (m', tc'.linked) ∧
      Holds F w₀ m' cc' (Function.update caches thread (some tc')) [] := by
  obtain ⟨c, hc⟩ : ∃ c, Size.sizeToIndex (Size.roundUp size) = c := ⟨_, rfl⟩
  obtain ⟨tc₁, htc₁⟩ : ∃ tc₁ : ThreadCache, tc₁ = Function.update tc c ((tc c).pushFront p) :=
    ⟨_, rfl⟩
  obtain ⟨w, hw, h₁⟩ := h.pushCache ht c hne hp
  rw [← htc₁] at h₁
  have hlinked : Function.update tc.linked c ((tc c).pushFront p).linked = tc₁.linked := by
    rw [htc₁, linked_update]
  have hshort : (tc₁ c).chain.length < 2 ^ 64 := by
    have hlt := (hbound c).length_lt
    rw [htc₁, Function.update_self]
    show (tc c).chain.length + 1 < 2 ^ 64
    unfold maxBlockNum at hlt
    omega
  rw [ThreadCache.deallocate_managed tc cc p hsize hc htc₁] at hrun
  unfold ThreadCache.Managed at hsize
  rw [LinkedCache.deallocate, if_neg (by omega), if_neg (by omega), hc]
  dsimp only
  rw [hw]
  dsimp only
  rw [hlinked, linked_shouldReturn tc₁ hshort]
  split at hrun
  next hreturn =>
    rw [if_pos hreturn]
    have hback := h₁.returnToCentralCache (Function.update_self ..) hrun
    rw [Function.update_idem] at hback
    exact hback
  next hkeep =>
    cases hrun
    rw [if_neg hkeep]
    exact ⟨_, rfl, h₁⟩

/-- The loop of the destructor. -/
theorem drainLoop {cs : List Nat} (h : Holds F w₀ m cc caches []) (ht : caches thread = some tc)
    (hbound : tc.Bounded) (hrun : ThreadCache.drainLoop cs tc cc = some cc') :
    ∃ m', LinkedCache.drainLoop cs tc.linked m = some m' ∧
      Holds F w₀ m' cc' (Function.update caches thread none) [] := by
  induction cs generalizing m cc tc caches with
  | nil =>
    cases hrun
    refine ⟨m, rfl, h.rewrite (h.words.shrink (chains_drop ?_))⟩
    intro tc htc
    cases htc
  | cons c cs ih =>
    have hempty : (tc.linked c).empty = (tc c).chain.isEmpty :=
      linked_empty h.words (chains_of_cache ht c)
    rw [LinkedCache.drainLoop, hempty]
    rw [ThreadCache.drainLoop] at hrun
    split at hrun
    next hnone =>
      rw [if_pos hnone]
      exact ih h ht hbound hrun
    next hsome =>
      rw [if_neg hsome]
      obtain ⟨⟨cc₁, tc₁⟩, hreturn, hrun⟩ := Option.bind_eq_some_iff.mp hrun
      have hshort : (tc c).chain.length < 2 ^ 64 := by
        have hlt := (hbound c).length_lt
        unfold maxBlockNum at hlt
        omega
      have hsize : (tc.linked c).size = (tc c).size := Nat.mod_eq_of_lt hshort
      obtain ⟨m₁, hrun₁, h₁⟩ := h.returnToCentralCache ht hreturn
      obtain ⟨l, hl, hlen, hmax⟩ := ThreadCache.return_update hreturn
      have hbound₁ : tc₁.Bounded := by
        rw [hl]
        exact hbound.update ((hbound c).shorter (by omega) hmax)
      obtain ⟨m', hrun', h'⟩ := ih h₁ (Function.update_self ..) hbound₁ hrun
      rw [Function.update_idem] at h'
      refine ⟨m', ?_, h'⟩
      rw [hsize, hrun₁]
      exact hrun'

end Caches

end Holds

end Memory

end Pool

end WWRaftKV
