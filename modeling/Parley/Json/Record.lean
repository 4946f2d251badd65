/-
  Parley.Json.Record

  Records: JSON values with declared fields. A record is written as an object, where fields
  may stand in any order and unknown ones are skipped, or as the array of its fields in
  declared order. One list of fields describes both forms:

    * every field has a name, possibly another accepted name, a reader, and a rule for its
      absence;
    * in an object the entries are read in their order, and a field given twice (also under
      two names) is an error; absent fields are settled at the end, in declared order;
    * in an array the fields are read in declared order, fields with a default may be left
      off at the end, and nothing may follow the last field.
-/
import Parley.Json.Decode

namespace Parley

/-- What the absence of a field means. -/
inductive Absence (α : Type) where
  /-- The field has to be given. -/
  | required
  /-- An object may leave the field out, an array may not. -/
  | omitted (a : α)
  /-- Both forms may leave the field out. -/
  | default (a : α)

/-- A declared field of a record. -/
structure Field (α : Type) where
  name : String
  other : Option String
  read : Decoder α
  absence : Absence α

namespace Field

variable {α : Type}

def required (name : String) (read : Decoder α) : Field α := ⟨name, none, read, .required⟩

def withDefault (name : String) (read : Decoder α) (a : α) : Field α :=
  ⟨name, none, read, .default a⟩

/-- An optional value that reads as absent from an object without the field. -/
def optional (name : String) (read : Decoder α) : Field (Option α) :=
  ⟨name, none, Decode.option read, .omitted none⟩

/-- The field with another accepted name. -/
def orNamed (f : Field α) (other : String) : Field α := { f with other := some other }

/-- Whether an entry of this name gives the field. -/
def accepts (f : Field α) (name : String) : Bool := name == f.name || some name == f.other

/-- The value of a field that an object leaves out. -/
def absent (f : Field α) : Except DecodeError α :=
  match f.absence with
  | .required => .error (.missingField f.name)
  | .omitted a => .ok a
  | .default a => .ok a

end Field

/-- The declared fields of a record, by the types of their values. -/
inductive Fields : List Type → Type 1 where
  | nil : Fields []
  | cons {α : Type} {αs : List Type} (f : Field α) (rest : Fields αs) : Fields (α :: αs)

/-- One value for each field. -/
abbrev Row : List Type → Type
  | [] => Unit
  | α :: αs => α × Row αs

/-- A value for each field that has been given so far. -/
abbrev PartialRow : List Type → Type
  | [] => Unit
  | α :: αs => Option α × PartialRow αs

namespace Fields

/-- How many fields there are. -/
def count : {αs : List Type} → Fields αs → Nat
  | _, .nil => 0
  | _, .cons _ rest => rest.count + 1

/-- No field given. -/
def blank : {αs : List Type} → Fields αs → PartialRow αs
  | _, .nil => ()
  | _, .cons _ rest => (none, rest.blank)

/-- Takes one entry of an object; the entry of an unknown name changes nothing. -/
def enter : {αs : List Type} → Fields αs → String → Json → PartialRow αs →
    Except DecodeError (PartialRow αs)
  | _, .nil, _, _, () => .ok ()
  | _, .cons f rest, name, j, (slot, row) =>
    if f.accepts name then
      match slot with
      | some _ => .error (.duplicateField f.name)
      | none => (f.read j).map fun a => (some a, row)
    else (rest.enter name j row).map fun row => (slot, row)

/-- Takes the entries of an object one after another. -/
def enterAll {αs : List Type} (fs : Fields αs) : List (String × Json) → PartialRow αs →
    Except DecodeError (PartialRow αs)
  | [], row => .ok row
  | (name, j) :: es, row =>
    match fs.enter name j row with
    | .error e => .error e
    | .ok row => fs.enterAll es row

/-- Settles the fields that were not given. -/
def settle : {αs : List Type} → Fields αs → PartialRow αs → Except DecodeError (Row αs)
  | _, .nil, () => .ok ()
  | _, .cons f rest, (slot, row) =>
    match slot with
    | some a => (rest.settle row).map fun row => (a, row)
    | none =>
      match f.absent with
      | .error e => .error e
      | .ok a => (rest.settle row).map fun row => (a, row)

/-- The fields from the entries of an object. -/
def ofEntries {αs : List Type} (fs : Fields αs) (es : List (String × Json)) :
    Except DecodeError (Row αs) :=
  match fs.enterAll es fs.blank with
  | .error e => .error e
  | .ok row => fs.settle row

/-- The fields from the elements of an array, and the elements that are left over. `index`
counts the fields before these. -/
def ofElements : {αs : List Type} → Fields αs → String → Nat → List Json →
    Except DecodeError (Row αs × List Json)
  | _, .nil, _, _, js => .ok ((), js)
  | _, .cons f rest, expected, index, j :: js =>
    match f.read j with
    | .error e => .error e
    | .ok a => (rest.ofElements expected (index + 1) js).map fun (row, js) => ((a, row), js)
  | _, .cons f rest, expected, index, [] =>
    match f.absence with
    | .default a => (rest.ofElements expected (index + 1) []).map fun (row, js) => ((a, row), js)
    | _ => .error (.tooShort index expected)

/-- The fields from the elements of an array that has no others. -/
def ofArray {αs : List Type} (fs : Fields αs) (title : String) (js : List Json) :
    Except DecodeError (Row αs) :=
  let expected := title ++ " with " ++ DecodeError.elements fs.count
  match fs.ofElements expected 0 js with
  | .error e => .error e
  | .ok (row, []) => .ok row
  | .ok (_, _ :: _) => .error (.tooLong js.length fs.count)

/-- The fields of a record in either form; `title` names the record in messages. -/
def read {αs : List Type} (fs : Fields αs) (title : String) (j : Json) :
    Except DecodeError (Row αs) :=
  match j with
  | .obj es => fs.ofEntries es
  | .arr js => fs.ofArray title js
  | j => .error (.wrongType j title)

end Fields

end Parley
