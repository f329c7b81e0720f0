/-
Logs whose entries carry a term.

A log is a list, oldest entry first, over any type of entries with a term.  What
two logs share is said with prefixes: `p ++ [e] <+: l` names the entry `e` of `l`
together with everything before it, so no index occurs.
-/
import Mathlib.Data.List.Infix

namespace TermLog

variable {ε : Type} {term : ε → Nat} {l l' p q : List ε} {e f : ε}

/-! ## Prefixes -/

theorem eq_of_isPrefix_of_isPrefix (hp : p <+: l) (hq : q <+: l) (h : p.length = q.length) :
    p = q :=
  (List.prefix_of_prefix_length_le hp hq (Nat.le_of_eq h)).eq_of_length h

theorem exists_append_of_ne_nil (h : l ≠ []) : ∃ q f, l = q ++ [f] :=
  ⟨l.dropLast, l.getLast h, (List.dropLast_append_getLast h).symm⟩

/-- The prefix that ends with the entry at position `i`. -/
theorem take_succ_of_getElem? {i : Nat} (h : l[i]? = some e) :
    l.take (i + 1) = l.take i ++ [e] := by
  rw [List.take_add_one, h]
  rfl

theorem getElem?_of_isPrefix {i : Nat} (hp : p <+: l) (h : p[i]? = some e) :
    l[i]? = some e := by
  obtain ⟨s, rfl⟩ := hp
  have hi : i < p.length := (List.getElem?_eq_some_iff.mp h).1
  rw [List.getElem?_append_left hi]
  exact h

/-- Where both logs are long enough, a prefix has the entries of the log. -/
theorem getElem?_prefix_eq {i : Nat} (hp : p <+: l) (hi : i < p.length) : l[i]? = p[i]? := by
  obtain ⟨s, rfl⟩ := hp
  exact List.getElem?_append_left hi

/-! ## Order of the terms -/

/-- Terms never decrease along the log. -/
def Sorted (term : ε → Nat) (l : List ε) : Prop := l.Pairwise fun a b => term a ≤ term b

theorem Sorted.of_isPrefix (h : Sorted term l) (hp : p <+: l) : Sorted term p :=
  List.Pairwise.sublist hp.sublist h

theorem Sorted.le_last (h : Sorted term (p ++ [e])) (hf : f ∈ p ++ [e]) :
    term f ≤ term e := by
  rcases List.mem_append.mp hf with hf | hf
  · exact (List.pairwise_append.mp h).2.2 f hf e (List.mem_singleton_self e)
  · rw [List.mem_singleton.mp hf]

theorem Sorted.append (h : Sorted term l) (hl : ∀ f ∈ l, term f ≤ term e) :
    Sorted term (l ++ [e]) := by
  refine List.pairwise_append.mpr ⟨h, List.pairwise_singleton _ _, fun a ha b hb => ?_⟩
  rw [List.mem_singleton.mp hb]
  exact hl a ha

/-! ## The last term -/

/-- The term of the last entry, and 0 for the empty log. -/
def lastTerm (term : ε → Nat) (l : List ε) : Nat := (l.getLast?.map term).getD 0

@[simp] theorem lastTerm_nil : lastTerm term [] = 0 := rfl

@[simp] theorem lastTerm_append : lastTerm term (l ++ [e]) = term e := by
  rw [lastTerm, List.getLast?_append_of_ne_nil _ (List.cons_ne_nil _ _)]
  rfl

theorem Sorted.le_lastTerm (h : Sorted term l) (he : e ∈ l) : term e ≤ lastTerm term l := by
  obtain ⟨q, f, rfl⟩ := exists_append_of_ne_nil (List.ne_nil_of_mem he)
  rw [lastTerm_append]
  exact h.le_last he

/-! ## Comparing logs -/

/-- `l` is at least as up to date as `l'`. -/
def UpToDate (term : ε → Nat) (l l' : List ε) : Prop :=
  lastTerm term l' < lastTerm term l ∨
    lastTerm term l' = lastTerm term l ∧ l'.length ≤ l.length

theorem UpToDate.trans {l'' : List ε} (h : UpToDate term l l') (h' : UpToDate term l' l'') :
    UpToDate term l l'' := by
  unfold UpToDate at *
  omega

theorem upToDate_of_isPrefix (h : Sorted term l) (hp : p <+: l) : UpToDate term l p := by
  by_cases hn : p = []
  · rw [hn, UpToDate, lastTerm_nil, List.length_nil]
    omega
  · obtain ⟨q, f, rfl⟩ := exists_append_of_ne_nil hn
    have hf : f ∈ l := hp.subset (List.mem_append_right q (List.mem_singleton_self f))
    have hle := h.le_lastTerm hf
    have hlen := hp.length_le
    rw [UpToDate, lastTerm_append]
    omega

/-! ## Logs written by the leaders of their terms -/

/-- Every entry stands on the log that the leader `llog` of its term has written. -/
def Traced (term : ε → Nat) (llog : Nat → List ε) (l : List ε) : Prop :=
  ∀ p e, p ++ [e] <+: l → p ++ [e] <+: llog (term e)

variable {llog llog' : Nat → List ε}

theorem traced_nil : Traced term llog [] := fun p e h => by
  have hlen := h.length_le
  simp at hlen

theorem Traced.of_isPrefix (h : Traced term llog l) (hp : p <+: l) : Traced term llog p :=
  fun q e hq => h q e (hq.trans hp)

theorem Traced.mono (h : Traced term llog l) (hg : ∀ t, llog t <+: llog' t) :
    Traced term llog' l :=
  fun p e hp => (h p e hp).trans (hg _)

theorem Traced.append (h : Traced term llog l) (he : l ++ [e] <+: llog (term e)) :
    Traced term llog (l ++ [e]) := by
  intro p f hp
  rcases List.prefix_concat_iff.mp hp with hp | hp
  · obtain ⟨rfl, hf⟩ := List.append_inj' hp rfl
    obtain rfl := List.singleton_inj.mp hf
    exact he
  · exact h p f hp

/-- The whole log stands on the log of the leader of its last term. -/
theorem Traced.of_last (h : Traced term llog (p ++ [e])) : p ++ [e] <+: llog (term e) :=
  h p e (List.prefix_refl _)

/-- Log matching: two entries of one term at one place have the same past. -/
theorem Traced.prefix_eq (h : Traced term llog l) (h' : Traced term llog l')
    (hp : p ++ [e] <+: l) (hq : q ++ [f] <+: l') (ht : term e = term f)
    (hlen : p.length = q.length) : p ++ [e] = q ++ [f] := by
  have hpl := h p e hp
  have hql := h' q f hq
  rw [ht] at hpl
  refine eq_of_isPrefix_of_isPrefix hpl hql ?_
  rw [List.length_append, List.length_append, hlen]
  rfl

/-- The same, for positions. -/
theorem Traced.take_eq (h : Traced term llog l) (h' : Traced term llog l') {i : Nat}
    (he : l[i]? = some e) (hf : l'[i]? = some f) (ht : term e = term f) :
    l.take (i + 1) = l'.take (i + 1) := by
  have hi : i < l.length := (List.getElem?_eq_some_iff.mp he).1
  have hi' : i < l'.length := (List.getElem?_eq_some_iff.mp hf).1
  rw [take_succ_of_getElem? he, take_succ_of_getElem? hf]
  refine h.prefix_eq h' ?_ ?_ ht ?_
  · rw [← take_succ_of_getElem? he]
    exact List.take_prefix _ _
  · rw [← take_succ_of_getElem? hf]
    exact List.take_prefix _ _
  · rw [List.length_take, List.length_take]
    omega

/-- A log that may occur: sorted, with positive terms, written by leaders. -/
structure Proper (term : ε → Nat) (llog : Nat → List ε) (l : List ε) : Prop where
  traced : Traced term llog l
  sorted : Sorted term l
  pos : ∀ e ∈ l, 0 < term e

theorem proper_nil : Proper term llog [] where
  traced := traced_nil
  sorted := List.Pairwise.nil
  pos := nofun

theorem Proper.of_isPrefix (h : Proper term llog l) (hp : p <+: l) : Proper term llog p where
  traced := h.traced.of_isPrefix hp
  sorted := h.sorted.of_isPrefix hp
  pos := fun e he => h.pos e (hp.subset he)

theorem Proper.mono (h : Proper term llog l) (hg : ∀ t, llog t <+: llog' t) :
    Proper term llog' l where
  traced := h.traced.mono hg
  sorted := h.sorted
  pos := h.pos

theorem Proper.append (h : Proper term llog l) (hl : ∀ f ∈ l, term f ≤ term e)
    (he : l ++ [e] <+: llog (term e)) (hp : 0 < term e) : Proper term llog (l ++ [e]) where
  traced := h.traced.append he
  sorted := h.sorted.append hl
  pos := fun f hf => by
    rcases List.mem_append.mp hf with hf | hf
    · exact h.pos f hf
    · rw [List.mem_singleton.mp hf]
      exact hp

end TermLog
