/-
Texts of records.

A record delimits itself: a reader takes it off the front of a text, and what is left of a
record that has been cut off is not readable.  So a text of records that has been cut off
can be read only if it ends between two of them.  The fields of a message are such records.
-/
import WWRaftKV.General.Fields

namespace Records

/-! ## Records -/

/-- How a record is written and read. -/
structure Format (α : Type) where
  write : α → List Char
  read : List Char → Option (α × List Char)
  write_ne_nil : ∀ x, write x ≠ []
  read_write : ∀ x rest, read (write x ++ rest) = some (x, rest)
  read_take : ∀ x k, k < (write x).length → read ((write x).take k) = none

namespace Format

variable {α : Type} (f : Format α)

def writeAll (xs : List α) : List Char := xs.flatMap f.write

/-- The records of a text; `rounds` bounds their number. -/
def readAll : Nat → List Char → Option (List α)
  | _, [] => some []
  | 0, _ :: _ => none
  | rounds + 1, c :: text => do
    let (x, rest) ← f.read (c :: text)
    let xs ← readAll rounds rest
    some (x :: xs)

/-- The records of a whole text. -/
def parse (text : List Char) : Option (List α) := f.readAll text.length text

variable {f} {xs : List α} {x : α}

@[simp] theorem writeAll_nil : f.writeAll [] = [] := rfl

@[simp] theorem writeAll_cons : f.writeAll (x :: xs) = f.write x ++ f.writeAll xs :=
  List.flatMap_cons

theorem readAll_succ {text : List Char} (h : text ≠ []) (rounds : Nat) :
    f.readAll (rounds + 1) text = (f.read text).bind fun y =>
      (f.readAll rounds y.2).bind fun ys => some (y.1 :: ys) := by
  cases text with
  | nil => exact absurd rfl h
  | cons c text => rfl

theorem readAll_zero {text : List Char} (h : text ≠ []) : f.readAll 0 text = none := by
  cases text with
  | nil => exact absurd rfl h
  | cons c text => rfl

theorem append_ne_nil (x : α) (rest : List Char) : f.write x ++ rest ≠ [] := by
  intro h
  exact f.write_ne_nil x (List.append_eq_nil_iff.mp h).1

theorem readAll_writeAll {rounds : Nat} (h : xs.length ≤ rounds) :
    f.readAll rounds (f.writeAll xs) = some xs := by
  induction xs generalizing rounds with
  | nil => cases rounds <;> rfl
  | cons x xs ih =>
    obtain ⟨rounds, rfl⟩ : ∃ k, rounds = k + 1 := ⟨rounds - 1, by simp at h; omega⟩
    rw [writeAll_cons, readAll_succ (append_ne_nil x _), f.read_write, Option.bind_some,
      ih (Nat.le_of_succ_le_succ h)]
    rfl

theorem length_le_writeAll (xs : List α) : xs.length ≤ (f.writeAll xs).length := by
  induction xs with
  | nil => exact Nat.le_refl _
  | cons x xs ih =>
    have hpos := List.length_pos_iff.mpr (f.write_ne_nil x)
    rw [writeAll_cons, List.length_append, List.length_cons]
    omega

theorem parse_writeAll (xs : List α) : f.parse (f.writeAll xs) = some xs :=
  readAll_writeAll (length_le_writeAll xs)

/-! ## Cuts -/

/-- The text consists of the first few of the records. -/
def Between (f : Format α) (xs : List α) (text : List Char) : Prop :=
  ∃ n ≤ xs.length, text = f.writeAll (xs.take n)

theorem between_nil (xs : List α) : f.Between xs [] := ⟨0, Nat.zero_le _, rfl⟩

theorem Between.cons {text : List Char} (h : f.Between xs text) (x : α) :
    f.Between (x :: xs) (f.write x ++ text) := by
  obtain ⟨n, hn, rfl⟩ := h
  refine ⟨n + 1, Nat.succ_le_succ hn, ?_⟩
  rw [List.take_succ_cons, writeAll_cons]

/-- A text that has been cut off within a record is not readable. -/
theorem readAll_take {k : Nat} (h : ¬ f.Between xs ((f.writeAll xs).take k)) (rounds : Nat) :
    f.readAll rounds ((f.writeAll xs).take k) = none := by
  induction xs generalizing k rounds with
  | nil =>
    rw [writeAll_nil, List.take_nil] at h
    exact absurd (between_nil []) h
  | cons x xs ih =>
    rw [writeAll_cons] at h ⊢
    by_cases hk : k < (f.write x).length
    · -- the cut is within this record
      rw [List.take_append_of_le_length (Nat.le_of_lt hk)] at h ⊢
      have hne : (f.write x).take k ≠ [] := by
        intro hnil
        rw [hnil] at h
        exact h (between_nil _)
      cases rounds with
      | zero => exact readAll_zero hne
      | succ rounds =>
        rw [readAll_succ hne, f.read_take x k hk]
        rfl
    · have htake : (f.write x ++ f.writeAll xs).take k =
          f.write x ++ (f.writeAll xs).take (k - (f.write x).length) := by
        rw [List.take_append, List.take_of_length_le (Nat.le_of_not_lt hk)]
      rw [htake] at h ⊢
      cases rounds with
      | zero => exact readAll_zero (append_ne_nil x _)
      | succ rounds =>
        have hrest := ih (fun hb => h (hb.cons x)) rounds
        rw [readAll_succ (append_ne_nil x _), f.read_write, Option.bind_some, hrest]
        rfl

theorem parse_take {k : Nat} (h : ¬ f.Between xs ((f.writeAll xs).take k)) :
    f.parse ((f.writeAll xs).take k) = none := readAll_take h _

end Format

/-! ## Fields -/

/-- The number of a field whose tag is one byte. -/
structure Key where
  number : Nat
  pos : 0 < number
  small : number < 16
deriving DecidableEq

inductive Field
  | number (key : Key) (n : Nat)
  | text (key : Key) (body : List Char)
deriving DecidableEq

namespace Field

open Fields

/-- A tag is the number of the field and the way in which its body is written: 0 for a
number, 2 for a length and a text. -/
def write : Field → List Char
  | .number key n => Char.ofNat (8 * key.number) :: varint n
  | .text key body => Char.ofNat (8 * key.number + 2) :: (varint body.length ++ body)

def readBody (key : Key) (kind : Nat) (text : List Char) : Option (Field × List Char) :=
  if kind = 0 then (readVarint text).map fun x => (.number key x.1, x.2)
  else if kind = 2 then
    (readVarint text).bind fun x =>
      if x.1 ≤ x.2.length then some (.text key (x.2.take x.1), x.2.drop x.1) else none
  else none

def read : List Char → Option (Field × List Char)
  | [] => none
  | tag :: rest =>
    if h : 0 < tag.toNat / 8 ∧ tag.toNat / 8 < 16 then
      readBody ⟨tag.toNat / 8, h.1, h.2⟩ (tag.toNat % 8) rest
    else none

variable {key : Key} {n k : Nat} {body rest : List Char}

theorem read_tag {kind : Nat} (hkind : kind < 8) (rest : List Char) :
    read (Char.ofNat (8 * key.number + kind) :: rest) = readBody key kind rest := by
  have hsmall := key.small
  have hnat : (Char.ofNat (8 * key.number + kind)).toNat = 8 * key.number + kind :=
    toNat_ofNat (by omega)
  have hkey : (8 * key.number + kind) / 8 = key.number := by omega
  have hmod : (8 * key.number + kind) % 8 = kind := by omega
  simp only [read, hnat, hkey, hmod]
  rw [dif_pos ⟨key.pos, key.small⟩]

theorem read_write (x : Field) (rest : List Char) : read (x.write ++ rest) = some (x, rest) := by
  cases x with
  | number key n =>
    rw [write, List.cons_append, ← Nat.add_zero (8 * key.number), read_tag (by omega), readBody,
      if_pos rfl, readVarint_varint]
    rfl
  | text key body =>
    rw [write, List.cons_append, List.append_assoc, read_tag (by omega), readBody,
      if_neg (by decide), if_pos rfl, readVarint_varint, Option.bind_some]
    dsimp only
    rw [if_pos (by rw [List.length_append]; exact Nat.le_add_right _ _), List.take_left,
      List.drop_left]

theorem read_take (x : Field) (hk : k < x.write.length) : read (x.write.take k) = none := by
  cases k with
  | zero => rfl
  | succ k =>
    cases x with
    | number key n =>
      have hlt : k < (varint n).length := Nat.lt_of_succ_lt_succ hk
      rw [write, List.take_succ_cons, ← Nat.add_zero (8 * key.number), read_tag (by omega),
        readBody, if_pos rfl, readVarint_take hlt]
      rfl
    | text key body =>
      have hlt : k < (varint body.length ++ body).length := Nat.lt_of_succ_lt_succ hk
      rw [List.length_append] at hlt
      rw [write, List.take_succ_cons, read_tag (by omega), readBody, if_neg (by decide),
        if_pos rfl]
      by_cases hin : k < (varint body.length).length
      · rw [List.take_append_of_le_length (Nat.le_of_lt hin), readVarint_take hin]
        rfl
      · -- the length says that more is to come
        rw [List.take_append, List.take_of_length_le (Nat.le_of_not_lt hin), readVarint_varint,
          Option.bind_some]
        dsimp only
        rw [if_neg]
        rw [List.length_take]
        omega

/-- The fields of a message. -/
def format : Format Field where
  write := write
  read := read
  write_ne_nil := by
    intro x
    cases x <;> exact List.cons_ne_nil _ _
  read_write := read_write
  read_take := fun x _ hk => read_take x hk

end Field

end Records
