/-
Length-delimited fields.

A number is written in groups of seven bits, the lowest first, and all bytes but the last
have their top bit set.  A field is a tag, the length of its body and the body.  What is
read back from a text is what has been written into it.
-/
import Mathlib.Data.Char

namespace Fields

/-! ## Numbers -/

/-- The rounds are as many as needed when they are not fewer than the number. -/
def varintLoop : Nat → Nat → List Char
  | 0, n => [Char.ofNat n]
  | rounds + 1, n =>
    if n < 128 then [Char.ofNat n]
    else Char.ofNat (n % 128 + 128) :: varintLoop rounds (n / 128)

def varint (n : Nat) : List Char := varintLoop n n

def readVarint : List Char → Option (Nat × List Char)
  | [] => none
  | b :: rest =>
    if b.toNat < 128 then some (b.toNat, rest)
    else (readVarint rest).map fun x => (b.toNat - 128 + 128 * x.1, x.2)

theorem toNat_ofNat {n : Nat} (h : n < 256) : (Char.ofNat n).toNat = n := by
  have hvalid : n.isValidChar := .inl (by omega)
  rw [Char.ofNat, dif_pos hvalid]
  rfl

theorem readVarint_varintLoop {rounds n : Nat} (h : n ≤ rounds) (rest : List Char) :
    readVarint (varintLoop rounds n ++ rest) = some (n, rest) := by
  induction rounds generalizing n with
  | zero =>
    obtain rfl := Nat.le_zero.mp h
    rfl
  | succ rounds ih =>
    rw [varintLoop]
    by_cases hn : n < 128
    · rw [if_pos hn, List.singleton_append, readVarint, toNat_ofNat (by omega), if_pos hn]
    · rw [if_neg hn, List.cons_append, readVarint, toNat_ofNat (by omega), if_neg (by omega),
        ih (by omega)]
      show some (n % 128 + 128 - 128 + 128 * (n / 128), rest) = some (n, rest)
      rw [Nat.add_sub_cancel, Nat.mod_add_div]

theorem readVarint_varint (n : Nat) (rest : List Char) :
    readVarint (varint n ++ rest) = some (n, rest) :=
  readVarint_varintLoop (Nat.le_refl n) rest

theorem readVarint_take_varintLoop {rounds n k : Nat} (hn : n ≤ rounds)
    (hk : k < (varintLoop rounds n).length) :
    readVarint ((varintLoop rounds n).take k) = none := by
  induction rounds generalizing n k with
  | zero =>
    obtain rfl : k = 0 := Nat.lt_one_iff.mp hk
    rfl
  | succ rounds ih =>
    cases k with
    | zero => rfl
    | succ k =>
      rw [varintLoop] at hk ⊢
      by_cases h : n < 128
      · rw [if_pos h] at hk
        exact absurd hk (by simp)
      · rw [if_neg h] at hk ⊢
        rw [List.take_succ_cons, readVarint, toNat_ofNat (by omega), if_neg (by omega),
          ih (by omega) (Nat.lt_of_succ_lt_succ hk)]
        rfl

/-- A number that has been cut off is not readable. -/
theorem readVarint_take {n k : Nat} (hk : k < (varint n).length) :
    readVarint ((varint n).take k) = none :=
  readVarint_take_varintLoop (Nat.le_refl n) hk

/-! ## Fields -/

def field (tag : Char) (body : List Char) : List Char := tag :: (varint body.length ++ body)

/-- The tags and the bodies of a text; `rounds` bounds their number. -/
def readFields : Nat → List Char → Option (List (Char × List Char))
  | _, [] => some []
  | 0, _ :: _ => none
  | rounds + 1, tag :: rest => do
    let (n, rest) ← readVarint rest
    if n ≤ rest.length then
      let fields ← readFields rounds (rest.drop n)
      some ((tag, rest.take n) :: fields)
    else none

theorem readFields_field (rounds : Nat) (tag : Char) (body rest : List Char) :
    readFields (rounds + 1) (field tag body ++ rest) =
      (readFields rounds rest).map fun fields => (tag, body) :: fields := by
  rw [field, List.cons_append, List.append_assoc, readFields, readVarint_varint]
  simp only [Option.bind_eq_bind, Option.bind_some, List.length_append]
  rw [if_pos (Nat.le_add_right _ _), List.drop_left, List.take_left]
  cases readFields rounds rest <;> rfl

/-- The fields of a text that consists of fields. -/
theorem readFields_flatMap {α : Type} (f : α → Char × List Char) (xs : List α) {rounds : Nat}
    (h : xs.length ≤ rounds) :
    readFields rounds (xs.flatMap fun x => field (f x).1 (f x).2) = some (xs.map f) := by
  induction xs generalizing rounds with
  | nil => cases rounds <;> rfl
  | cons x xs ih =>
    obtain ⟨rounds, rfl⟩ : ∃ k, rounds = k + 1 := ⟨rounds - 1, by simp at h; omega⟩
    rw [List.flatMap_cons, readFields_field, ih (Nat.le_of_succ_le_succ h)]
    rfl

theorem length_le_flatMap {α : Type} (f : α → Char × List Char) (xs : List α) :
    xs.length ≤ (xs.flatMap fun x => field (f x).1 (f x).2).length := by
  induction xs with
  | nil => exact Nat.le_refl _
  | cons x xs ih =>
    rw [List.flatMap_cons, List.length_append, List.length_cons]
    have : 1 ≤ (field (f x).1 (f x).2).length := by simp [field]
    omega

end Fields
