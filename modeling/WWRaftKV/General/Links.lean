/-
Singly linked lists through a partial `next` function.

`Links next a xs e`: from `a` on, the pointers lead through the nodes `xs` and then to
`e`.  The pointer of a node is `none` where it cannot be read.  A node is put in or taken
out by changing the pointer of the node in front of it.
-/
import Mathlib.Data.List.Basic

namespace Linked

variable {α : Type}

def Links (next : α → Option (Option α)) : α → List α → Option α → Prop
  | a, [], e => next a = some e
  | a, x :: xs, e => next a = some (some x) ∧ Links next x xs e

section Links

variable {next next' : α → Option (Option α)} {a b n : α} {xs ys : List α} {e f : Option α}

@[simp] theorem links_nil : Links next a [] e ↔ next a = some e := Iff.rfl

@[simp] theorem links_cons {x : α} :
    Links next a (x :: xs) e ↔ next a = some (some x) ∧ Links next x xs e := Iff.rfl

/-- Where the first pointer of a list leads. -/
theorem Links.first (h : Links next a xs e) : next a = some (xs.head?.or e) := by
  cases xs with
  | nil => exact h
  | cons x xs => exact h.1

theorem Links.last (h : Links next a xs e) : next (xs.getLastD a) = some e := by
  induction xs generalizing a with
  | nil => exact h
  | cons x xs ih =>
    rw [List.getLastD_cons]
    exact ih h.2

/-- A list depends on the pointers of its nodes only. -/
theorem Links.congr (h : Links next a xs e) (hn : ∀ b ∈ a :: xs, next' b = next b) :
    Links next' a xs e := by
  induction xs generalizing a with
  | nil =>
    show next' a = some e
    rw [hn a List.mem_cons_self]
    exact h
  | cons x xs ih =>
    constructor
    · rw [hn a List.mem_cons_self]
      exact h.1
    · apply ih h.2
      intro b hb
      exact hn b (List.mem_cons_of_mem _ hb)

/-- A list depends on its start only through the pointer of the start. -/
theorem Links.restart (h : Links next a xs e) (hb : next' b = next a)
    (hn : ∀ c ∈ xs, next' c = next c) : Links next' b xs e := by
  cases xs with
  | nil =>
    show next' b = some e
    rw [hb]
    exact h
  | cons x xs =>
    constructor
    · rw [hb]
      exact h.1
    · exact h.2.congr hn

theorem links_append :
    Links next a (xs ++ ys) e ↔
      Links next a xs (ys.head?.or e) ∧ Links next (xs.getLastD a) ys e := by
  induction xs generalizing a with
  | nil =>
    constructor
    · intro h
      exact ⟨h.first, h⟩
    · exact And.right
  | cons x xs ih =>
    rw [List.cons_append, links_cons, links_cons, ih, and_assoc, List.getLastD_cons]

/-- The last pointer of a list leads elsewhere. -/
theorem Links.redirect (h : Links next a xs e) (hd : (a :: xs).Nodup)
    (hl : next' (xs.getLastD a) = some f)
    (hn : ∀ b ∈ a :: xs, b ≠ xs.getLastD a → next' b = next b) :
    Links next' a xs f := by
  induction xs generalizing a with
  | nil => exact hl
  | cons x xs ih =>
    rw [List.getLastD_cons] at hl hn
    have hmem : xs.getLastD x ∈ x :: xs := List.getLastD_mem_cons
    have hnot := (List.nodup_cons.mp hd).1
    constructor
    · rw [hn a List.mem_cons_self]
      · exact h.1
      · intro he
        rw [← he] at hmem
        exact hnot hmem
    · apply ih h.2 (List.nodup_cons.mp hd).2 hl
      intro b hb
      exact hn b (List.mem_cons_of_mem _ hb)

theorem getLastD_notMem (hd : (a :: (xs ++ ys)).Nodup) : xs.getLastD a ∉ ys := by
  have hsplit : ((a :: xs) ++ ys).Nodup := hd
  intro hy
  exact (List.nodup_append.mp hsplit).2.2 _ List.getLastD_mem_cons _ hy rfl

/-- A new node behind `xs`. -/
theorem Links.insert (h : Links next a (xs ++ ys) e) (hd : (a :: (xs ++ ys)).Nodup)
    (hnew : next' n = next (xs.getLastD a)) (hlast : next' (xs.getLastD a) = some (some n))
    (hn : ∀ b ∈ a :: (xs ++ ys), b ≠ xs.getLastD a → next' b = next b) :
    Links next' a (xs ++ n :: ys) e := by
  obtain ⟨hxs, hys⟩ := links_append.mp h
  have hsplit : ((a :: xs) ++ ys).Nodup := hd
  apply links_append.mpr
  constructor
  · apply hxs.redirect (List.nodup_append.mp hsplit).1 hlast
    intro b hb
    apply hn
    exact List.mem_append_left ys hb
  · refine ⟨hlast, hys.restart hnew ?_⟩
    intro c hc
    apply hn c (List.mem_append_right (a :: xs) hc)
    intro he
    rw [he] at hc
    exact getLastD_notMem hd hc

/-- The node behind `xs` is taken out. -/
theorem Links.remove (h : Links next a (xs ++ n :: ys) e) (hd : (a :: (xs ++ n :: ys)).Nodup)
    (hlast : next' (xs.getLastD a) = next n)
    (hn : ∀ b ∈ a :: (xs ++ ys), b ≠ xs.getLastD a → next' b = next b) :
    Links next' a (xs ++ ys) e := by
  obtain ⟨hxs, hys⟩ := links_append.mp h
  have hsplit : ((a :: xs) ++ n :: ys).Nodup := hd
  have hnot : xs.getLastD a ∉ ys := by
    have hl := getLastD_notMem hd
    intro hy
    exact hl (List.mem_cons_of_mem _ hy)
  apply links_append.mpr
  constructor
  · apply hxs.redirect (List.nodup_append.mp hsplit).1
    · rw [hlast]
      exact hys.2.first
    · intro b hb
      apply hn
      exact List.mem_append_left ys hb
  · apply hys.2.restart hlast
    intro c hc
    apply hn c (List.mem_append_right (a :: xs) hc)
    intro he
    rw [he] at hc
    exact hnot hc

end Links

end Linked
