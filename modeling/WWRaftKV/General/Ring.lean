/-
Doubly linked lists in a ring through a head node.

A node is in memory or it is not, and its two links are unset at first.  Every read and
write of a link of a node that is not there, and every step along an unset link, is
undefined.
-/
import Mathlib.Data.List.Basic
import Mathlib.Logic.Function.Basic

namespace WWRaftKV

/-- The links of a node. -/
structure Link (α : Type) where
  prev : Option α
  next : Option α
deriving DecidableEq, Repr

/-- The nodes in memory. -/
abbrev Nodes (α : Type) := α → Option (Link α)

namespace Nodes

variable {α : Type}

def next (m : Nodes α) (n : α) : Option α := (m n).bind (·.next)

def prev (m : Nodes α) (n : α) : Option α := (m n).bind (·.prev)

/-! ## Reads and edits -/

section Edits

variable {m : Nodes α} {n : α}

/-- `m'` has the nodes of `m`, with the links outside of `A` unchanged. -/
structure Edits (A : α → Prop) (m m' : Nodes α) : Prop where
  present : ∀ x, (m' x).isSome = (m x).isSome
  same : ∀ x, ¬ A x → m' x = m x

theorem Edits.trans {A B C : α → Prop} {m' m'' : Nodes α} (h : Edits A m m')
    (h' : Edits B m' m'') (hA : ∀ x, A x → C x) (hB : ∀ x, B x → C x) : Edits C m m'' where
  present := fun x => (h'.present x).trans (h.present x)
  same := fun x hx => (h'.same x fun hb => hx (hB x hb)).trans (h.same x fun ha => hx (hA x ha))

theorem isSome_of_next {x : α} (h : m.next n = some x) : (m n).isSome = true := by
  unfold next at h
  cases hn : m n with
  | none =>
    rw [hn] at h
    cases h
  | some k => rfl

end Edits

/-! ## Paths -/

/-- The links lead from `a` through `l` to `b`, and back. -/
def Path (m : Nodes α) : α → List α → α → Prop
  | a, [], b => m.next a = some b ∧ m.prev b = some a
  | a, x :: l, b => m.next a = some x ∧ m.prev x = some a ∧ Path m x l b

section Path

variable {m m' : Nodes α} {a b n : α} {l l' : List α}

theorem Path.congr (hnext : ∀ x ∈ a :: l, m'.next x = m.next x)
    (hprev : ∀ x ∈ l ++ [b], m'.prev x = m.prev x) (h : Path m a l b) : Path m' a l b := by
  induction l generalizing a with
  | nil =>
    obtain ⟨hn, hp⟩ := h
    refine ⟨(hnext a List.mem_cons_self).trans hn, (hprev b ?_).trans hp⟩
    exact List.mem_append_right _ (List.mem_singleton_self _)
  | cons x l ih =>
    obtain ⟨hn, hp, hrest⟩ := h
    refine ⟨(hnext a List.mem_cons_self).trans hn, (hprev x List.mem_cons_self).trans hp, ?_⟩
    exact ih (fun y hy => hnext y (List.mem_cons_of_mem _ hy))
      (fun y hy => hprev y (List.mem_cons_of_mem _ hy)) hrest

theorem path_append : Path m a (l ++ n :: l') b ↔ Path m a l n ∧ Path m n l' b := by
  induction l generalizing a with
  | nil => simp [Path, and_assoc]
  | cons x l ih =>
    rw [List.cons_append, Path, Path, ih]
    simp only [and_assoc]

/-- Where a path starts to. -/
theorem Path.next (h : Path m a l b) : m.next a = some (l.headD b) := by
  cases l with
  | nil => exact h.1
  | cons x l => exact h.1

/-- Where a path comes from. -/
theorem Path.prev (h : Path m a l b) : m.prev b = some (l.getLastD a) := by
  induction l generalizing a with
  | nil => exact h.2
  | cons x l ih =>
    rw [ih h.2.2]
    cases l <;> rfl

theorem Path.present (h : Path m a l b) : ∀ x ∈ a :: l, (m x).isSome = true := by
  induction l generalizing a with
  | nil =>
    intro x hx
    rw [List.mem_singleton.mp hx]
    exact isSome_of_next h.1
  | cons y l ih =>
    intro x hx
    rcases List.mem_cons.mp hx with rfl | hx
    · exact isSome_of_next h.1
    · exact ih h.2.2 x hx

theorem getLastD_mem (a : α) (l : List α) : l.getLastD a ∈ a :: l := by
  induction l generalizing a with
  | nil => exact List.mem_cons_self
  | cons x l ih =>
    have hlast : (x :: l).getLastD a = l.getLastD x := by cases l <;> rfl
    rw [hlast]
    exact List.mem_cons_of_mem _ (ih x)

theorem headD_mem (b : α) (l : List α) : l.headD b ∈ l ++ [b] := by
  cases l with
  | nil => exact List.mem_cons_self
  | cons x l => exact List.mem_cons_self

theorem mem_of_mem_append_head {x head : α} (hx : x ∈ l ++ [head]) : x ∈ head :: l := by
  rcases List.mem_append.mp hx with hx | hx
  · exact List.mem_cons_of_mem _ hx
  · rw [List.mem_singleton.mp hx]
    exact List.mem_cons_self

/-- A node comes between `a` and what follows it, when the links on the two sides are turned
to the node. -/
theorem Path.enter [DecidableEq α] (h : Path m a l b)
    (hnext : ∀ x, m'.next x = if x = a then some n else if x = n then some (l.headD b)
      else m.next x)
    (hprev : ∀ x, m'.prev x = if x = l.headD b then some n else if x = n then some a
      else m.prev x)
    (hn : n ∉ a :: (l ++ [b])) (ha : a ∉ l) (hnodup : l.Nodup) (hb : b ∉ l) :
    Path m' a (n :: l) b := by
  have hna : n ≠ a := List.ne_of_not_mem_cons hn
  have hnl : n ∉ l ++ [b] := fun hmem => hn (List.mem_cons_of_mem _ hmem)
  have hnfirst : n ≠ l.headD b := by
    intro hsame
    apply hnl
    rw [hsame]
    exact headD_mem b l
  refine ⟨(hnext a).trans (if_pos rfl), ?_, ?_⟩
  · rw [hprev, if_neg hnfirst, if_pos rfl]
  · cases l with
    | nil =>
      refine ⟨?_, (hprev b).trans (if_pos rfl)⟩
      rw [hnext, if_neg hna, if_pos rfl]
      rfl
    | cons y l =>
      obtain ⟨hy, -⟩ := List.nodup_cons.mp hnodup
      refine ⟨?_, (hprev y).trans (if_pos rfl), ?_⟩
      · rw [hnext, if_neg hna, if_pos rfl]
        rfl
      · apply h.2.2.congr
        · intro x hx
          have hxn : x ≠ n := fun e => hnl (e ▸ List.mem_append_left _ hx)
          have hxa : x ≠ a := fun e => ha (e ▸ hx)
          rw [hnext, if_neg hxa, if_neg hxn]
        · intro x hx
          have hxn : x ≠ n := fun e => hnl (e ▸ List.mem_cons_of_mem _ hx)
          have hxy : x ≠ y := by
            rintro rfl
            rcases List.mem_cons.mp (mem_of_mem_append_head hx) with hx | hx
            · exact hb (hx ▸ List.mem_cons_self)
            · exact hy hx
          exact (hprev x).trans ((if_neg hxy).trans (if_neg hxn))

/-- Two paths that meet in `n` make one without `n`, when the links on the two sides of
`n` are turned to each other. -/
theorem Path.join [DecidableEq α] (h : Path m a l n) (h' : Path m n l' b)
    (hnext : ∀ x, m'.next x = if x = l.getLastD a then some (l'.headD b) else m.next x)
    (hprev : ∀ x, m'.prev x = if x = l'.headD b then some (l.getLastD a) else m.prev x)
    (hnodup : (a :: (l ++ l')).Nodup) (hb : b ∉ l ++ l') : Path m' a (l ++ l') b := by
  induction l generalizing a with
  | nil =>
    cases l' with
    | nil =>
      exact ⟨(hnext a).trans (if_pos rfl), (hprev b).trans (if_pos rfl)⟩
    | cons y l' =>
      refine ⟨(hnext a).trans (if_pos rfl), (hprev y).trans (if_pos rfl), ?_⟩
      obtain ⟨ha, hl'⟩ := List.nodup_cons.mp hnodup
      obtain ⟨hy, -⟩ := List.nodup_cons.mp hl'
      apply h'.2.2.congr
      · intro x hx
        rw [hnext, if_neg]
        rintro rfl
        exact ha hx
      · intro x hx
        rw [hprev, if_neg]
        rintro rfl
        rcases List.mem_append.mp hx with hx | hx
        · exact hy hx
        · rw [List.mem_singleton] at hx
          exact hb (hx ▸ List.mem_cons_self)
  | cons y l ih =>
    obtain ⟨ha, hrest⟩ := List.nodup_cons.mp hnodup
    have hlast : (y :: l).getLastD a = l.getLastD y := by cases l <;> rfl
    rw [hlast] at hnext hprev
    refine ⟨?_, ?_, ?_⟩
    · rw [hnext, if_neg]
      · exact h.1
      · intro hsame
        apply ha
        rw [hsame]
        have hmem := getLastD_mem y l
        exact List.mem_append_left _ hmem
    · rw [hprev, if_neg]
      · exact h.2.1
      · intro hsame
        rcases List.mem_append.mp (headD_mem b l') with hmem | hmem
        · obtain ⟨hy, -⟩ := List.nodup_cons.mp hrest
          rw [← hsame] at hmem
          exact hy (List.mem_append_right _ hmem)
        · rw [List.mem_singleton, ← hsame] at hmem
          exact hb (hmem ▸ List.mem_cons_self)
    · exact ih h.2.2 hnext hprev hrest fun hmem => hb (List.mem_cons_of_mem _ hmem)

end Path

/-! ## Rings -/

/-- The list `l` between the two ends of `head`. -/
structure Ring (m : Nodes α) (head : α) (l : List α) : Prop where
  path : Path m head l head
  nodup : (head :: l).Nodup

section Reads

variable {m m' : Nodes α} {head n : α} {l l' : List α}

theorem Ring.congr (hm : ∀ x ∈ head :: l, m' x = m x) (h : Ring m head l) : Ring m' head l where
  path := by
    apply h.path.congr
    · intro x hx
      rw [Nodes.next, Nodes.next, hm x hx]
    · intro x hx
      rw [Nodes.prev, Nodes.prev, hm x (mem_of_mem_append_head hx)]
  nodup := h.nodup

theorem Ring.next (h : Ring m head l) : m.next head = some (l.headD head) := h.path.next

/-- The ring is empty when the head is its own successor. -/
theorem Ring.next_eq_head_iff (h : Ring m head l) : m.next head = some head ↔ l = [] := by
  rw [h.next, Option.some.injEq]
  cases l with
  | nil => exact iff_of_true rfl rfl
  | cons x l =>
    apply iff_of_false
    · intro hsame
      have hx : x = head := hsame
      apply (List.nodup_cons.mp h.nodup).1
      rw [hx]
      exact List.mem_cons_self
    · exact List.cons_ne_nil _ _

/-- A node in a ring has the links of a node in memory. -/
theorem Ring.present (h : Ring m head l) : ∀ x ∈ head :: l, (m x).isSome = true :=
  h.path.present

end Reads

/-! ## List operations -/

section Operations

variable [DecidableEq α]

def setNext (m : Nodes α) (n v : α) : Option (Nodes α) :=
  (m n).map fun k => Function.update m n (some { k with next := some v })

def setPrev (m : Nodes α) (n v : α) : Option (Nodes α) :=
  (m n).map fun k => Function.update m n (some { k with prev := some v })

def pushFront (m : Nodes α) (head n : α) : Option (Nodes α) := do
  let first ← m.next head
  let m ← m.setNext n first
  let m ← m.setPrev n head
  let m ← m.setPrev first n
  m.setNext head n

def popFront (m : Nodes α) (head : α) : Option (Nodes α) := do
  let front ← m.next head
  let second ← m.next front
  let m ← m.setNext head second
  let second ← m.next front
  m.setPrev second head

def erase (m : Nodes α) (n : α) : Option (Nodes α) := do
  let before ← m.prev n
  let behind ← m.next n
  let m ← m.setNext before behind
  m.setPrev behind before

variable {m : Nodes α} {head n v : α} {l l' : List α}

/-- One node is written. -/
theorem next_update (k : Link α) (x : α) :
    Nodes.next (Function.update m n (some k)) x = if x = n then k.next else m.next x := by
  unfold Nodes.next
  by_cases hx : x = n
  · rw [if_pos hx, hx, Function.update_self]
    rfl
  · rw [if_neg hx, Function.update_of_ne hx]

theorem prev_update (k : Link α) (x : α) :
    Nodes.prev (Function.update m n (some k)) x = if x = n then k.prev else m.prev x := by
  unfold Nodes.prev
  by_cases hx : x = n
  · rw [if_pos hx, hx, Function.update_self]
    rfl
  · rw [if_neg hx, Function.update_of_ne hx]

theorem edits_update (h : (m n).isSome = true) (k : Link α) :
    Edits (· = n) m (Function.update m n (some k)) where
  present := by
    intro x
    by_cases hx : x = n
    · rw [hx, Function.update_self, h]
      rfl
    · rw [Function.update_of_ne hx]
  same := fun x hx => Function.update_of_ne hx ..

theorem setNext_spec (h : (m n).isSome = true) :
    ∃ m', m.setNext n v = some m' ∧ (∀ x, m'.next x = if x = n then some v else m.next x) ∧
      (∀ x, m'.prev x = m.prev x) ∧ Edits (· = n) m m' := by
  obtain ⟨k, hk⟩ := Option.isSome_iff_exists.mp h
  refine ⟨Function.update m n (some { k with next := some v }), by rw [setNext, hk]; rfl,
    next_update _, ?_, edits_update h _⟩
  intro x
  rw [prev_update]
  split
  · next hx => rw [hx, Nodes.prev, hk]; rfl
  · rfl

theorem setPrev_spec (h : (m n).isSome = true) :
    ∃ m', m.setPrev n v = some m' ∧ (∀ x, m'.prev x = if x = n then some v else m.prev x) ∧
      (∀ x, m'.next x = m.next x) ∧ Edits (· = n) m m' := by
  obtain ⟨k, hk⟩ := Option.isSome_iff_exists.mp h
  refine ⟨Function.update m n (some { k with prev := some v }), by rw [setPrev, hk]; rfl,
    prev_update _, ?_, edits_update h _⟩
  intro x
  rw [next_update]
  split
  · next hx => rw [hx, Nodes.next, hk]; rfl
  · rfl

/-- A node is put to the front. -/
theorem Ring.pushFront (h : Ring m head l) (hn : n ∉ head :: l) (hpresent : (m n).isSome = true) :
    ∃ m', m.pushFront head n = some m' ∧ Ring m' head (n :: l) ∧
      Edits (fun x => x ∈ n :: head :: l) m m' := by
  obtain ⟨hhead, hl⟩ := List.nodup_cons.mp h.nodup
  have hne : n ≠ head := fun e => hn (e ▸ List.mem_cons_self)
  have hfirst : l.headD head ∈ head :: l := mem_of_mem_append_head (headD_mem head l)
  obtain ⟨m₁, hm₁, hnext₁, hprev₁, hedit₁⟩ := setNext_spec (v := l.headD head) hpresent
  obtain ⟨m₂, hm₂, hprev₂, hnext₂, hedit₂⟩ :=
    setPrev_spec (m := m₁) (n := n) (v := head) (by rw [hedit₁.present]; exact hpresent)
  obtain ⟨m₃, hm₃, hprev₃, hnext₃, hedit₃⟩ :=
    setPrev_spec (m := m₂) (n := l.headD head) (v := n)
      (by rw [hedit₂.present, hedit₁.present]; exact h.present _ hfirst)
  obtain ⟨m₄, hm₄, hnext₄, hprev₄, hedit₄⟩ :=
    setNext_spec (m := m₃) (n := head) (v := n)
      (by rw [hedit₃.present, hedit₂.present, hedit₁.present]; exact h.present _ List.mem_cons_self)
  refine ⟨m₄, ?_, ⟨?_, ?_⟩, ?_⟩
  · rw [Nodes.pushFront, h.next]
    simp only [Option.bind_eq_bind, Option.bind_some, hm₁, hm₂, hm₃, hm₄]
  · apply h.path.enter
    · intro x
      rw [hnext₄, hnext₃, hnext₂, hnext₁]
    · intro x
      rw [hprev₄, hprev₃, hprev₂, hprev₁]
    · intro hmem
      rcases List.mem_cons.mp hmem with hmem | hmem
      · exact hne hmem
      · exact hn (mem_of_mem_append_head hmem)
    · exact hhead
    · exact hl
    · exact hhead
  · rw [List.nodup_cons, List.nodup_cons, List.mem_cons, not_or]
    exact ⟨⟨Ne.symm hne, hhead⟩, fun hmem => hn (List.mem_cons_of_mem _ hmem), hl⟩
  · have hall : ∀ x, x ∈ head :: l → x ∈ n :: head :: l := fun x => List.mem_cons_of_mem _
    apply ((hedit₁.trans hedit₂ (C := fun x => x ∈ n :: head :: l) ?_ ?_).trans hedit₃
      (fun _ hx => hx) ?_).trans hedit₄ (fun _ hx => hx) ?_
    · rintro x rfl
      exact List.mem_cons_self
    · rintro x rfl
      exact List.mem_cons_self
    · rintro x rfl
      exact hall _ hfirst
    · rintro x rfl
      exact hall _ List.mem_cons_self

/-- A node is taken out. -/
theorem Ring.erase (h : Ring m head (l ++ n :: l')) :
    ∃ m', m.erase n = some m' ∧ Ring m' head (l ++ l') ∧
      Edits (fun x => x ∈ head :: (l ++ n :: l')) m m' := by
  obtain ⟨hfront, hback⟩ := path_append.mp h.path
  obtain ⟨before, hbefore⟩ : ∃ before, before = l.getLastD head := ⟨_, rfl⟩
  obtain ⟨behind, hbehind⟩ : ∃ behind, behind = l'.headD head := ⟨_, rfl⟩
  have hmemBefore : before ∈ head :: (l ++ n :: l') := by
    rw [hbefore]
    rcases List.mem_cons.mp (getLastD_mem head l) with hmem | hmem
    · rw [hmem]
      exact List.mem_cons_self
    · exact List.mem_cons_of_mem _ (List.mem_append_left _ hmem)
  have hmemBehind : behind ∈ head :: (l ++ n :: l') := by
    rw [hbehind]
    rcases List.mem_cons.mp (mem_of_mem_append_head (headD_mem head l')) with hmem | hmem
    · rw [hmem]
      exact List.mem_cons_self
    · exact List.mem_cons_of_mem _ (List.mem_append_right _ (List.mem_cons_of_mem _ hmem))
  obtain ⟨m₁, hm₁, hnext₁, hprev₁, hedit₁⟩ :=
    setNext_spec (v := behind) (h.present before hmemBefore)
  obtain ⟨m₂, hm₂, hprev₂, hnext₂, hedit₂⟩ :=
    setPrev_spec (m := m₁) (n := behind) (v := before)
      (by rw [hedit₁.present]; exact h.present behind hmemBehind)
  have hsub : (head :: (l ++ l')).Sublist (head :: (l ++ n :: l')) :=
    List.Sublist.cons_cons _ ((List.Sublist.refl l).append (List.sublist_cons_self n l'))
  have hnodup : (head :: (l ++ l')).Nodup := h.nodup.sublist hsub
  refine ⟨m₂, ?_, ⟨?_, hnodup⟩, ?_⟩
  · rw [Nodes.erase, hfront.prev, hback.next, ← hbefore, ← hbehind]
    simp only [Option.bind_eq_bind, Option.bind_some, hm₁, hm₂]
  · apply hfront.join hback
    · intro x
      rw [hnext₂, hnext₁, hbefore, hbehind]
    · intro x
      rw [hprev₂, hprev₁, hbefore, hbehind]
    · exact hnodup
    · exact (List.nodup_cons.mp hnodup).1
  · apply hedit₁.trans hedit₂
    · rintro x rfl
      exact hmemBefore
    · rintro x rfl
      exact hmemBehind

/-- `popFront` takes the first node out. -/
theorem Ring.popFront (h : Ring m head (n :: l)) :
    ∃ m', m.popFront head = some m' ∧ Ring m' head l ∧
      Edits (fun x => x ∈ head :: n :: l) m m' := by
  have hne : n ≠ head := fun e => (List.nodup_cons.mp h.nodup).1 (e ▸ List.mem_cons_self)
  obtain ⟨m', hm', hring, hedit⟩ := Ring.erase (l := []) h
  refine ⟨m', ?_, hring, hedit⟩
  have hnext : m.next n = some (l.headD head) := h.path.2.2.next
  rw [Nodes.erase, h.path.2.1, hnext] at hm'
  rw [Nodes.popFront, h.path.1]
  simp only [Option.bind_eq_bind, Option.bind_some] at hm' ⊢
  rw [hnext, Option.bind_some]
  obtain ⟨m₁, hm₁, hnext₁, -, -⟩ :=
    setNext_spec (v := l.headD head) (h.present head List.mem_cons_self)
  rw [hm₁, Option.bind_some] at hm' ⊢
  rw [hnext₁, if_neg hne, hnext, Option.bind_some]
  exact hm'

end Operations

/-! ## Many rings -/

/-- The lists `g` with the heads `hd`, in rings that share no node. -/
structure Rings {ι : Type} (m : Nodes α) (hd : ι → α) (g : ι → List α) : Prop where
  ring : ∀ i, Ring m (hd i) (g i)
  apart : ∀ i j, i ≠ j → ∀ x ∈ hd i :: g i, x ∉ hd j :: g j

section Rings

variable {ι : Type} {m m' : Nodes α} {hd : ι → α} {g : ι → List α} {i : ι} {n : α}
  {l : List α}

/-- Nodes that are in no ring may change, come and go. -/
theorem Rings.congr (h : Rings m hd g) (hm : ∀ i, ∀ x ∈ hd i :: g i, m' x = m x) :
    Rings m' hd g where
  ring := fun i => (h.ring i).congr (hm i)
  apart := h.apart

variable [DecidableEq ι]

/-- The ring of `i` has changed, and no other one has been touched. -/
theorem Rings.edit {A : α → Prop} (h : Rings m hd g) (hring : Ring m' (hd i) l)
    (hedit : Edits A m m') (hA : ∀ x, A x → ∀ j, j ≠ i → x ∉ hd j :: g j)
    (hl : ∀ x ∈ l, ∀ j, j ≠ i → x ∉ hd j :: g j) : Rings m' hd (Function.update g i l) where
  ring := by
    intro j
    by_cases hj : j = i
    · subst hj
      rw [Function.update_self]
      exact hring
    · rw [Function.update_of_ne hj]
      exact (h.ring j).congr fun x hx => hedit.same x fun ha => hA x ha j hj hx
  apart := by
    have hnew : ∀ j, j ≠ i → ∀ x ∈ hd i :: l, x ∉ hd j :: g j := by
      intro j hj x hx
      rcases List.mem_cons.mp hx with rfl | hx
      · exact h.apart i j (Ne.symm hj) _ List.mem_cons_self
      · exact hl x hx j hj
    intro j k hjk x hx hx'
    by_cases hj : j = i
    · subst hj
      rw [Function.update_self] at hx
      rw [Function.update_of_ne (Ne.symm hjk)] at hx'
      exact hnew k (Ne.symm hjk) x hx hx'
    · rw [Function.update_of_ne hj] at hx
      by_cases hk : k = i
      · subst hk
        rw [Function.update_self] at hx'
        exact hnew j hj x hx' hx
      · rw [Function.update_of_ne hk] at hx'
        exact h.apart j k hjk x hx hx'

/-- A node that is taken out of its ring is in no other one. -/
theorem Rings.loose (h : Rings m hd g) (hn : n ∈ g i) (hl : ∀ x ∈ l, x ∈ g i) (hnl : n ∉ l) :
    ∀ j, n ∉ hd j :: Function.update g i l j := by
  have hmem : n ∈ hd i :: g i := List.mem_cons_of_mem _ hn
  intro j hj
  by_cases hji : j = i
  · subst hji
    rw [Function.update_self] at hj
    rcases List.mem_cons.mp hj with hhead | hj
    · exact (List.nodup_cons.mp (h.ring j).nodup).1 (hhead ▸ hn)
    · exact hnl hj
  · rw [Function.update_of_ne hji] at hj
    exact h.apart i j (Ne.symm hji) n hmem hj

variable [DecidableEq α]

theorem Rings.pushFront (h : Rings m hd g) (hn : ∀ j, n ∉ hd j :: g j)
    (hpresent : (m n).isSome = true) :
    ∃ m', m.pushFront (hd i) n = some m' ∧ Rings m' hd (Function.update g i (n :: g i)) ∧
      Edits (fun x => x ∈ n :: hd i :: g i) m m' := by
  obtain ⟨m', hm', hring, hedit⟩ := (h.ring i).pushFront (hn i) hpresent
  refine ⟨m', hm', h.edit hring hedit ?_ ?_, hedit⟩
  · intro x hx j hj
    rcases List.mem_cons.mp hx with rfl | hx
    · exact hn j
    · exact h.apart i j (Ne.symm hj) x hx
  · intro x hx j hj
    rcases List.mem_cons.mp hx with rfl | hx
    · exact hn j
    · exact h.apart i j (Ne.symm hj) x (List.mem_cons_of_mem _ hx)

theorem Rings.popFront (h : Rings m hd g) (hl : g i = n :: l) :
    ∃ m', m.popFront (hd i) = some m' ∧ Rings m' hd (Function.update g i l) ∧
      Edits (fun x => x ∈ hd i :: g i) m m' ∧ ∀ j, n ∉ hd j :: Function.update g i l j := by
  have hring := h.ring i
  rw [hl] at hring
  obtain ⟨m', hm', hring', hedit⟩ := hring.popFront
  rw [← hl] at hedit
  have hsub : ∀ x ∈ l, x ∈ g i := by
    intro x hx
    rw [hl]
    exact List.mem_cons_of_mem _ hx
  have hn : n ∈ g i := by
    rw [hl]
    exact List.mem_cons_self
  have hnl : n ∉ l := (List.nodup_cons.mp (List.nodup_cons.mp hring.nodup).2).1
  refine ⟨m', hm', h.edit hring' hedit ?_ ?_, hedit, h.loose hn hsub hnl⟩
  · exact fun x hx j hj => h.apart i j (Ne.symm hj) x hx
  · exact fun x hx j hj => h.apart i j (Ne.symm hj) x (List.mem_cons_of_mem _ (hsub x hx))

theorem Rings.erase (h : Rings m hd g) (hn : n ∈ g i) :
    ∃ m', m.erase n = some m' ∧ Rings m' hd (Function.update g i ((g i).erase n)) ∧
      Edits (fun x => x ∈ hd i :: g i) m m' ∧
      ∀ j, n ∉ hd j :: Function.update g i ((g i).erase n) j := by
  obtain ⟨l, l', hl⟩ := List.append_of_mem hn
  have hring := h.ring i
  rw [hl] at hring
  have hnl : n ∉ l := by
    intro hmem
    have hnodup := (List.nodup_cons.mp hring.nodup).2
    exact (List.nodup_append.mp hnodup).2.2 n hmem n List.mem_cons_self rfl
  obtain ⟨m', hm', hring', hedit⟩ := hring.erase
  rw [← hl] at hedit
  have herase : (g i).erase n = l ++ l' := by
    rw [hl, List.erase_append_right _ hnl, List.erase_cons_head]
  have hsub : ∀ x ∈ (g i).erase n, x ∈ g i := fun x => List.mem_of_mem_erase
  have hout : n ∉ (g i).erase n := by
    have hnodup := (List.nodup_cons.mp (h.ring i).nodup).2
    exact hnodup.not_mem_erase
  rw [← herase] at hring'
  refine ⟨m', hm', h.edit hring' hedit ?_ ?_, hedit, h.loose hn hsub hout⟩
  · exact fun x hx j hj => h.apart i j (Ne.symm hj) x hx
  · exact fun x hx j hj => h.apart i j (Ne.symm hj) x (List.mem_cons_of_mem _ (hsub x hx))

end Rings

end Nodes

end WWRaftKV
