/-
The finite map of an association list that is sorted by its keys.

A key cuts such a list in two.  The map changes at the key only when the list changes at
the cut.
-/
import Mathlib.Data.Finmap
import Mathlib.Data.Finset.Max

namespace SortedMap

variable {κ ν : Type} [LinearOrder κ]

def ofList (es : List (κ × ν)) : Finmap fun _ : κ => ν :=
  (es.map fun e => (⟨e.1, e.2⟩ : Sigma fun _ : κ => ν)).toFinmap

section Operations

variable (key : κ) (value : ν) (m : Finmap fun _ : κ => ν)

/-! The operations of `Finmap`, with the equality of keys that the order decides. -/

abbrev lookup : Option ν := m.lookup key

abbrev insert : Finmap fun _ : κ => ν := m.insert key value

abbrev erase : Finmap fun _ : κ => ν := m.erase key

end Operations

/-- The element with the least key above `key`. -/
def above (m : Finmap fun _ : κ => ν) (key : κ) : Option (κ × ν) :=
  if h : (m.keys.filter (key < ·)).Nonempty then
    (m.lookup ((m.keys.filter (key < ·)).min' h)).map
      fun v => ((m.keys.filter (key < ·)).min' h, v)
  else none

/-- The keys of `pre` are below `key`, and those of `post` above it. -/
structure Cut (key : κ) (pre post : List (κ × ν)) : Prop where
  below : ∀ e ∈ pre, e.1 < key
  above : ∀ e ∈ post, key < e.1

section Lookup

variable {key k : κ} {v w : ν} {e : κ × ν} {es xs ys pre post : List (κ × ν)}

@[simp] theorem ofList_nil : ofList ([] : List (κ × ν)) = ∅ := rfl

theorem lookup_append :
    (ofList (xs ++ ys)).lookup k = ((ofList xs).lookup k).or ((ofList ys).lookup k) := by
  unfold ofList
  rw [List.map_append]
  simp only [Finmap.dlookup_list_toFinmap]
  rw [List.dlookup_append]

theorem lookup_cons_self : (ofList ((key, v) :: es)).lookup key = some v := by
  unfold ofList
  rw [Finmap.dlookup_list_toFinmap]
  exact List.dlookup_cons_eq _ _ _

theorem lookup_cons_of_ne (h : k ≠ e.1) : (ofList (e :: es)).lookup k = (ofList es).lookup k := by
  unfold ofList
  simp only [Finmap.dlookup_list_toFinmap]
  exact List.dlookup_cons_ne _ _ h

theorem lookup_eq_none (h : ∀ e ∈ es, e.1 ≠ k) : (ofList es).lookup k = none := by
  induction es with
  | nil => exact Finmap.lookup_empty k
  | cons e es ih =>
    rw [lookup_cons_of_ne (h e List.mem_cons_self).symm]
    apply ih
    intro d hd
    exact h d (List.mem_cons_of_mem _ hd)

theorem mem_keys : k ∈ (ofList es).keys ↔ k ∈ es.map (·.1) := by
  rw [Finmap.mem_keys, ← Finmap.lookup_isSome]
  induction es with
  | nil => simp
  | cons e es ih =>
    by_cases hk : k = e.1
    · subst hk
      have hs : (ofList (e :: es)).lookup e.1 = some e.2 := lookup_cons_self
      simp [hs]
    · rw [lookup_cons_of_ne hk, ih, List.map_cons, List.mem_cons]
      simp [hk]

theorem Cut.lookup_pre (h : Cut key pre post) : (ofList pre).lookup key = none := by
  apply lookup_eq_none
  intro e he
  exact ne_of_lt (h.below e he)

theorem Cut.lookup_post (h : Cut key pre post) : (ofList post).lookup key = none := by
  apply lookup_eq_none
  intro e he
  exact (ne_of_lt (h.above e he)).symm

/-- A key between the two parts is absent. -/
theorem Cut.lookup_absent (h : Cut key pre post) : (ofList (pre ++ post)).lookup key = none := by
  rw [lookup_append, h.lookup_pre, h.lookup_post]
  rfl

theorem Cut.lookup_present (h : Cut key pre post) :
    (ofList (pre ++ (key, v) :: post)).lookup key = some v := by
  rw [lookup_append, h.lookup_pre, lookup_cons_self]
  rfl

theorem lookup_middle_of_ne (hk : k ≠ key) :
    (ofList (pre ++ (key, v) :: post)).lookup k = (ofList (pre ++ post)).lookup k := by
  rw [lookup_append, lookup_append, lookup_cons_of_ne hk]

/-- A new element at the cut. -/
theorem Cut.insert_absent (h : Cut key pre post) (v : ν) :
    ofList (pre ++ (key, v) :: post) = (ofList (pre ++ post)).insert key v := by
  apply Finmap.ext_lookup
  intro k
  by_cases hk : k = key
  · subst hk
    rw [h.lookup_present, Finmap.lookup_insert]
  · rw [lookup_middle_of_ne hk, Finmap.lookup_insert_of_ne _ hk]

/-- A new value at the cut. -/
theorem Cut.insert_present (h : Cut key pre post) (v w : ν) :
    ofList (pre ++ (key, w) :: post) = (ofList (pre ++ (key, v) :: post)).insert key w := by
  rw [h.insert_absent, h.insert_absent, Finmap.insert_insert]

theorem Cut.erase_present (h : Cut key pre post) (v : ν) :
    ofList (pre ++ post) = (ofList (pre ++ (key, v) :: post)).erase key := by
  apply Finmap.ext_lookup
  intro k
  by_cases hk : k = key
  · subst hk
    rw [h.lookup_absent, Finmap.lookup_erase]
  · rw [Finmap.lookup_erase_ne hk, lookup_middle_of_ne hk]

end Lookup

theorem insert_ne_self {m : Finmap fun _ : κ => ν} {key : κ} (h : m.lookup key = none) (v : ν) :
    m.insert key v ≠ m := by
  intro heq
  have hlook := Finmap.lookup_insert (a := key) (b := v) m
  rw [heq, h] at hlook
  cases hlook

/-- Nothing to erase. -/
theorem erase_of_lookup {m : Finmap fun _ : κ => ν} {key : κ} (h : m.lookup key = none) :
    m.erase key = m := by
  apply Finmap.ext_lookup
  intro k
  by_cases hk : k = key
  · subst hk
    rw [h, Finmap.lookup_erase]
  · rw [Finmap.lookup_erase_ne hk]

section Order

variable {key : κ} {es pre mid post : List (κ × ν)}

theorem card_keys (h : es.Pairwise fun d e => d.1 < e.1) : (ofList es).keys.card = es.length := by
  have hn : (es.map (·.1)).Nodup := by
    apply List.pairwise_map.mpr
    apply h.imp
    intro d e
    exact ne_of_lt
  have hk : (ofList es).keys = (es.map (·.1)).toFinset := by
    ext k
    rw [mem_keys, List.mem_toFinset]
  rw [hk, List.toFinset_card_of_nodup hn, List.length_map]

theorem lookup_eq_some_iff (h : es.Pairwise fun d e => d.1 < e.1) {k : κ} {v : ν} :
    (ofList es).lookup k = some v ↔ (k, v) ∈ es := by
  induction es with
  | nil => simp
  | cons e es ih =>
    obtain ⟨he, hs⟩ := List.pairwise_cons.mp h
    by_cases hk : k = e.1
    · subst hk
      have hs' : (ofList (e :: es)).lookup e.1 = some e.2 := lookup_cons_self
      rw [hs', List.mem_cons]
      constructor
      · intro hv
        rw [← Option.some.inj hv]
        exact .inl rfl
      · rintro (hv | hm)
        · rw [← hv]
        · exact absurd (he _ hm) (lt_irrefl _)
    · rw [lookup_cons_of_ne hk, ih hs, List.mem_cons]
      constructor
      · exact .inr
      · rintro (rfl | hm)
        · exact absurd rfl hk
        · exact hm

/-- A sorted list is determined by its map. -/
theorem ofList_injective {fs : List (κ × ν)} (he : es.Pairwise fun d e => d.1 < e.1)
    (hf : fs.Pairwise fun d e => d.1 < e.1) (h : ofList es = ofList fs) : es = fs := by
  have hn : ∀ {xs : List (κ × ν)}, xs.Pairwise (fun d e => d.1 < e.1) → xs.Nodup := by
    intro xs hx
    apply hx.imp
    rintro d e hlt rfl
    exact lt_irrefl _ hlt
  have hp : es.Perm fs := by
    apply (List.perm_ext_iff_of_nodup (hn he) (hn hf)).mpr
    rintro ⟨k, v⟩
    rw [← lookup_eq_some_iff he, ← lookup_eq_some_iff hf, h]
  apply hp.eq_of_pairwise _ he hf
  intro d e _ _ hde hed
  exact absurd (lt_trans hde hed) (lt_irrefl _)

/-- Behind the cut the list begins with the next element. -/
theorem above_ofList (hmid : ∀ e ∈ pre ++ mid, e.1 ≤ key) (hpost : ∀ e ∈ post, key < e.1)
    (hs : post.Pairwise fun d e => d.1 < e.1) :
    SortedMap.above (ofList (pre ++ mid ++ post)) key = post.head? := by
  have hmem : ∀ k, k ∈ (ofList (pre ++ mid ++ post)).keys.filter (key < ·) ↔
      k ∈ post.map (·.1) := by
    intro k
    rw [Finset.mem_filter, mem_keys, List.map_append, List.mem_append]
    constructor
    · rintro ⟨hk | hk, hlt⟩
      · obtain ⟨e, he, rfl⟩ := List.mem_map.mp hk
        exact absurd hlt (not_lt.mpr (hmid e he))
      · exact hk
    · intro hk
      obtain ⟨e, he, rfl⟩ := List.mem_map.mp hk
      exact ⟨.inr hk, hpost e he⟩
  unfold SortedMap.above
  cases post with
  | nil =>
    rw [dif_neg]
    · rfl
    · rintro ⟨k, hk⟩
      exact absurd ((hmem k).mp hk) List.not_mem_nil
  | cons e post =>
    have hne : ((ofList (pre ++ mid ++ e :: post)).keys.filter (key < ·)).Nonempty :=
      ⟨e.1, (hmem e.1).mpr List.mem_cons_self⟩
    have hmin : ((ofList (pre ++ mid ++ e :: post)).keys.filter (key < ·)).min' hne = e.1 := by
      apply le_antisymm
      · apply Finset.min'_le
        exact (hmem e.1).mpr List.mem_cons_self
      · apply Finset.le_min'
        intro k hk
        rcases List.mem_cons.mp ((hmem k).mp hk) with rfl | hk
        · exact le_refl _
        · obtain ⟨d, hd, rfl⟩ := List.mem_map.mp hk
          exact le_of_lt ((List.pairwise_cons.mp hs).1 d hd)
    have hlook : (ofList (pre ++ mid ++ e :: post)).lookup e.1 = some e.2 := by
      have hnone : (ofList (pre ++ mid)).lookup e.1 = none := by
        apply lookup_eq_none
        intro d hd
        exact ne_of_lt (lt_of_le_of_lt (hmid d hd) (hpost e List.mem_cons_self))
      rw [lookup_append, hnone]
      exact lookup_cons_self
    rw [dif_pos hne, hmin, hlook]
    rfl

end Order

/-! ## Building a map -/

/-- The pairs are put into the map one after the other. -/
def insertAll (m : Finmap fun _ : κ => ν) (es : List (κ × ν)) : Finmap fun _ : κ => ν :=
  es.foldl (fun m e => insert e.1 e.2 m) m

theorem insertAll_ofList (pre : List (κ × ν)) {es : List (κ × ν)}
    (h : (pre ++ es).Pairwise fun d e => d.1 < e.1) :
    insertAll (ofList pre) es = ofList (pre ++ es) := by
  induction es generalizing pre with
  | nil => rw [List.append_nil, insertAll, List.foldl_nil]
  | cons e es ih =>
    have hcut : Cut e.1 pre [] := by
      refine ⟨fun d hd => ?_, nofun⟩
      exact (List.pairwise_append.mp h).2.2 d hd e List.mem_cons_self
    have hinsert := hcut.insert_absent e.2
    rw [List.append_nil] at hinsert
    have happend : pre ++ [e] ++ es = pre ++ e :: es := by simp
    rw [insertAll, List.foldl_cons, insert, ← hinsert, ← happend]
    rw [← happend] at h
    exact ih _ h

/-- The pairs of a map in the order of their keys make the map again. -/
theorem insertAll_empty {es : List (κ × ν)} (h : es.Pairwise fun d e => d.1 < e.1) :
    insertAll ∅ es = ofList es := insertAll_ofList [] h

/-! ## Listings -/

/-- The pairs of a map, each once, in the order of the keys. -/
structure Lists (m : Finmap fun _ : κ => ν) (es : List (κ × ν)) : Prop where
  sorted : es.Pairwise fun d e => d.1 < e.1
  exact : ∀ key value, (key, value) ∈ es ↔ m.lookup key = some value

theorem lists_ofList {es : List (κ × ν)} (h : es.Pairwise fun d e => d.1 < e.1) :
    Lists (ofList es) es := ⟨h, fun _ _ => (lookup_eq_some_iff h).symm⟩

/-- What is listed is the map. -/
theorem Lists.insertAll {m : Finmap fun _ : κ => ν} {es : List (κ × ν)} (h : Lists m es) :
    SortedMap.insertAll ∅ es = m := by
  rw [insertAll_empty h.sorted]
  apply Finmap.ext_lookup
  intro key
  apply Option.ext
  intro value
  rw [lookup_eq_some_iff h.sorted]
  exact h.exact key value

end SortedMap
