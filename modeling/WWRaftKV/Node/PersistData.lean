/-
The persist file, as the generated code writes it.

All number fields of `RaftPersistData` are `int64`, and one that is 0 is left out, as is an
empty command.  A field that is missing is read as 0, so a file that has been cut off between
two fields is read like any other, and one that has been cut off within a field is not.
-/
import WWRaftKV.General.Records
import WWRaftKV.Node.Wire

namespace WWRaftKV

open Records

/-- Every number is one of its type. -/
structure RaftPersistData.Typed (d : RaftPersistData) : Prop where
  term : d.term < 2 ^ 64
  votedFor : Wire.IsInt d.votedFor
  entries : ∀ e ∈ d.entries, e.term < 2 ^ 64
  lastIncludedIndex : Wire.IsInt d.lastIncludedIndex
  lastIncludedTerm : d.lastIncludedTerm < 2 ^ 64

instance (d : RaftPersistData) : Decidable d.Typed :=
  decidable_of_iff (d.term < 2 ^ 64 ∧ (-2 ^ 31 ≤ d.votedFor ∧ d.votedFor < 2 ^ 31) ∧
      (∀ e ∈ d.entries, e.term < 2 ^ 64) ∧
      (-2 ^ 31 ≤ d.lastIncludedIndex ∧ d.lastIncludedIndex < 2 ^ 31) ∧
      d.lastIncludedTerm < 2 ^ 64)
    ⟨fun h => ⟨h.1, h.2.1, h.2.2.1, h.2.2.2.1, h.2.2.2.2⟩, fun h =>
      ⟨h.term, h.votedFor, h.entries, h.lastIncludedIndex, h.lastIncludedTerm⟩⟩

namespace PersistData

open Wire

/-! ## Numbers on the disk -/

/-- An `int64` as the unsigned number that is written for it. -/
def unsigned (x : Int) : Nat := toSize (toInt64 x)

theorem toInt64_unsigned (x : Int) : toInt64 (unsigned x) = toInt64 x := by
  unfold unsigned toSize toInt64
  rw [Int.toNat_of_nonneg (Int.emod_nonneg _ (by decide))]
  exact (Int.emod_bmod _ (2 ^ 64)).trans Int.bmod_bmod

theorem toSize_toInt64_size {t : Nat} (h : t < 2 ^ 64) : toSize (toInt64 t) = t := by
  have hmod : (t : Int).bmod (2 ^ 64) % ((2 ^ 64 : Nat) : Int) = t % ((2 ^ 64 : Nat) : Int) :=
    Int.bmod_emod
  unfold toSize toInt64
  rw [show (2 : Int) ^ 64 = ((2 ^ 64 : Nat) : Int) from rfl, hmod]
  omega

/-! ## Fields -/

def termKey : Key := ⟨1, by decide, by decide⟩
def commandKey : Key := ⟨2, by decide, by decide⟩
def votedForKey : Key := ⟨2, by decide, by decide⟩
def entriesKey : Key := ⟨3, by decide, by decide⟩
def lastIncludedIndexKey : Key := ⟨4, by decide, by decide⟩
def lastIncludedTermKey : Key := ⟨5, by decide, by decide⟩

def numberField (key : Key) (x : Int) : List Field :=
  if toInt64 x = 0 then [] else [.number key (unsigned x)]

def textField (key : Key) (body : Str) : List Field :=
  if body = [] then [] else [.text key body]

/-- The fields of `RaftPersistLogEntry`. -/
def entryFields (e : RaftPersistLogEntry) : List Field :=
  numberField termKey e.term ++ textField commandKey e.command

def serializeEntry (e : RaftPersistLogEntry) : Str := Field.format.writeAll (entryFields e)

def entryField (e : RaftPersistLogEntry) : Field := .text entriesKey (serializeEntry e)

/-- The fields of `RaftPersistData`. -/
def fields (d : RaftPersistData) : List Field :=
  numberField termKey d.term ++ numberField votedForKey d.votedFor ++
    d.entries.map entryField ++
    numberField lastIncludedIndexKey d.lastIncludedIndex ++
    numberField lastIncludedTermKey d.lastIncludedTerm

def serialize (d : RaftPersistData) : Str := Field.format.writeAll (fields d)

/-! ## Reading -/

def numbersOf (key : Key) (xs : List Field) : List Nat :=
  xs.filterMap fun x => match x with
    | .number k n => if k = key then some n else none
    | .text _ _ => none

def textsOf (key : Key) (xs : List Field) : List Str :=
  xs.filterMap fun x => match x with
    | .number _ _ => none
    | .text k body => if k = key then some body else none

/-- The last number with this key. -/
def numberOf (key : Key) (xs : List Field) : Int :=
  toInt64 (((numbersOf key xs).getLast?.getD 0 : Nat) : Int)

def parseEntry (text : Str) : Option RaftPersistLogEntry :=
  (Field.format.parse text).map fun xs =>
    { term := toSize (numberOf termKey xs)
      command := (textsOf commandKey xs).getLast?.getD [] }

def parse (text : Str) : Option RaftPersistData := do
  let xs ← Field.format.parse text
  let entries ← (textsOf entriesKey xs).mapM parseEntry
  some {
    term := toSize (numberOf termKey xs)
    votedFor := toInt (numberOf votedForKey xs)
    entries := entries
    lastIncludedIndex := toInt (numberOf lastIncludedIndexKey xs)
    lastIncludedTerm := toSize (numberOf lastIncludedTermKey xs) }

/-! ## There and back -/

section Lists

variable {key k : Key} {xs ys : List Field} {x : Int} {body : Str}

@[simp] theorem numbersOf_append :
    numbersOf key (xs ++ ys) = numbersOf key xs ++ numbersOf key ys := List.filterMap_append

@[simp] theorem textsOf_append :
    textsOf key (xs ++ ys) = textsOf key xs ++ textsOf key ys := List.filterMap_append

@[simp] theorem numbersOf_number (n : Nat) : numbersOf key [.number key n] = [n] :=
  List.filterMap_cons_some (if_pos rfl)

@[simp] theorem numbersOf_numberField_of_ne (h : k ≠ key) :
    numbersOf key (numberField k x) = [] := by
  unfold numberField
  split
  · rfl
  · exact List.filterMap_cons_none (if_neg h)

@[simp] theorem numbersOf_textField : numbersOf key (textField k body) = [] := by
  unfold textField
  split <;> rfl

@[simp] theorem numbersOf_entries (es : List RaftPersistLogEntry) :
    numbersOf key (es.map entryField) = [] := by
  induction es with
  | nil => rfl
  | cons e es ih => exact ih

@[simp] theorem textsOf_numberField : textsOf key (numberField k x) = [] := by
  unfold numberField
  split <;> rfl

theorem textsOf_textField :
    textsOf key (textField key body) = if body = [] then [] else [body] := by
  unfold textField
  split
  · rfl
  · exact List.filterMap_cons_some (if_pos rfl)

@[simp] theorem textsOf_entries (es : List RaftPersistLogEntry) :
    textsOf entriesKey (es.map entryField) = es.map serializeEntry := by
  induction es with
  | nil => rfl
  | cons e es ih => exact congrArg (serializeEntry e :: ·) ih

/-- A number field that stands alone among its key. -/
theorem numberOf_eq (h : numbersOf key xs = numbersOf key (numberField key x)) :
    numberOf key xs = toInt64 x := by
  unfold numberOf
  rw [h]
  unfold numberField
  split
  · rename_i hzero
    rw [hzero]
    exact toInt64_term (show 0 < 2 ^ 63 by decide)
  · rw [numbersOf_number]
    exact toInt64_unsigned x

end Lists

theorem parseEntry_serializeEntry {e : RaftPersistLogEntry} (h : e.term < 2 ^ 64) :
    parseEntry (serializeEntry e) = some e := by
  have hterm : numberOf termKey (entryFields e) = toInt64 e.term := by
    apply numberOf_eq
    rw [entryFields, numbersOf_append, numbersOf_textField, List.append_nil]
  have hcommand : (textsOf commandKey (entryFields e)).getLast?.getD [] = e.command := by
    rw [entryFields, textsOf_append, textsOf_numberField, List.nil_append, textsOf_textField]
    split <;> simp_all
  rw [parseEntry, serializeEntry, Format.parse_writeAll, Option.map_some, hterm, hcommand,
    toSize_toInt64_size h]

theorem mapM_parseEntry {es : List RaftPersistLogEntry} (h : ∀ e ∈ es, e.term < 2 ^ 64) :
    (es.map serializeEntry).mapM parseEntry = some es := by
  induction es with
  | nil => rfl
  | cons e es ih =>
    rw [List.map_cons, List.mapM_cons, parseEntry_serializeEntry (h e List.mem_cons_self),
      ih fun x hx => h x (List.mem_cons_of_mem _ hx)]
    rfl

section Numbers

variable {d : RaftPersistData}

theorem numbersOf_fields (key : Key) (d : RaftPersistData) :
    numbersOf key (fields d) = numbersOf key (numberField termKey d.term) ++
      numbersOf key (numberField votedForKey d.votedFor) ++
      numbersOf key (numberField lastIncludedIndexKey d.lastIncludedIndex) ++
      numbersOf key (numberField lastIncludedTermKey d.lastIncludedTerm) := by
  rw [fields, numbersOf_append, numbersOf_append, numbersOf_append, numbersOf_append,
    numbersOf_entries, List.append_nil]

theorem numberOf_term (h : d.Typed) : toSize (numberOf termKey (fields d)) = d.term := by
  rw [numberOf_eq (x := d.term), toSize_toInt64_size h.term]
  simp (disch := decide) only [numbersOf_fields, numbersOf_numberField_of_ne, List.append_nil]

theorem numberOf_votedFor (h : d.Typed) :
    toInt (numberOf votedForKey (fields d)) = d.votedFor := by
  rw [numberOf_eq (x := d.votedFor), toInt_toInt64 h.votedFor]
  simp (disch := decide) only [numbersOf_fields, numbersOf_numberField_of_ne, List.append_nil,
    List.nil_append]

theorem numberOf_lastIncludedIndex (h : d.Typed) :
    toInt (numberOf lastIncludedIndexKey (fields d)) = d.lastIncludedIndex := by
  rw [numberOf_eq (x := d.lastIncludedIndex), toInt_toInt64 h.lastIncludedIndex]
  simp (disch := decide) only [numbersOf_fields, numbersOf_numberField_of_ne, List.append_nil,
    List.nil_append]

theorem numberOf_lastIncludedTerm (h : d.Typed) :
    toSize (numberOf lastIncludedTermKey (fields d)) = d.lastIncludedTerm := by
  rw [numberOf_eq (x := d.lastIncludedTerm), toSize_toInt64_size h.lastIncludedTerm]
  -- a proof by evaluation would go into the numbers
  simp -implicitDefEqProofs (disch := decide) only [numbersOf_fields, numbersOf_numberField_of_ne,
    List.nil_append]

end Numbers

/-- What is read is what has been written. -/
theorem parse_serialize {d : RaftPersistData} (h : d.Typed) : parse (serialize d) = some d := by
  have hentries : textsOf entriesKey (fields d) = d.entries.map serializeEntry := by
    simp [fields]
  unfold parse serialize
  rw [Format.parse_writeAll, Option.bind_eq_bind, Option.bind_some, hentries,
    mapM_parseEntry h.entries, numberOf_term h, numberOf_votedFor h,
    numberOf_lastIncludedIndex h, numberOf_lastIncludedTerm h]
  rfl

/-- A file that has been cut off within a field does not load. -/
theorem parse_take {d : RaftPersistData} {k : Nat}
    (h : ¬ Field.format.Between (fields d) ((serialize d).take k)) :
    parse ((serialize d).take k) = none := by
  unfold parse serialize at *
  rw [Format.parse_take h]
  rfl

end PersistData

end WWRaftKV
