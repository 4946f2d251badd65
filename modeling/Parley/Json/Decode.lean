/-
  Parley.Json.Decode

  Reading typed values off JSON trees. A value that does not fit is reported by its cause,
  a `DecodeError`; `DecodeError.message` gives the wording.
-/
import Parley.Json.Writer
import Parley.Text.Quoted

namespace Parley

/-- Why a JSON tree does not read as a value of the wanted type. -/
inductive DecodeError where
  /-- Another kind of JSON value than the expected one. -/
  | wrongType (found : Json) (expected : String)
  /-- An integer outside the range of its field. -/
  | outOfRange (found : Int) (expected : String)
  | unknownVariant (name : String) (known : List String)
  /-- A variant written as an object has its name as the only entry. -/
  | severalKeys
  | missingField (name : String)
  | duplicateField (name : String)
  /-- An array form that ends before a field without default. -/
  | tooShort (given : Nat) (expected : String)
  /-- An array form with more elements than fields. -/
  | tooLong (given fields : Nat)
  /-- No script value. -/
  | notAValue

namespace DecodeError

/-- How a found JSON value is named. -/
def describe : Json → String
  | .null => "null"
  | .bool true => "boolean `true`"
  | .bool false => "boolean `false`"
  | .num (.int n) => "integer `" ++ toString n ++ "`"
  | .num (.float x) => "floating point `" ++ Json.floatStyle.text x ++ "`"
  | .str s => "string " ++ Text.quoted s
  | .arr _ => "sequence"
  | .obj _ => "map"
  | .unreadable => "literal"

/-- A number of elements, with the noun in the right number. -/
def elements (n : Nat) : String := toString n ++ (if n = 1 then " element" else " elements")

def message : DecodeError → String
  | .wrongType found expected => "invalid type: " ++ describe found ++ ", expected " ++ expected
  | .outOfRange found expected =>
    "invalid value: integer `" ++ toString found ++ "`, expected " ++ expected
  | .unknownVariant name known =>
    "unknown variant `" ++ name ++ "`, expected one of " ++
      ", ".intercalate (known.map fun k => "`" ++ k ++ "`")
  | .severalKeys => "invalid value: map, expected map with a single key"
  | .missingField name => "missing field `" ++ name ++ "`"
  | .duplicateField name => "duplicate field `" ++ name ++ "`"
  | .tooShort given expected => "invalid length " ++ toString given ++ ", expected " ++ expected
  | .tooLong given fields =>
    "invalid length " ++ toString given ++ ", expected " ++ elements fields ++ " in sequence"
  | .notAValue => "expected null, bool, number, string or list of strings"

end DecodeError

/-- Reads a value of type `α` off a JSON tree. -/
abbrev Decoder (α : Type) := Json → Except DecodeError α

namespace Decode

variable {α : Type}

def text : Decoder String
  | .str s => .ok s
  | j => .error (.wrongType j "a string")

def bool : Decoder Bool
  | .bool b => .ok b
  | j => .error (.wrongType j "a boolean")

/-- A natural number below a bound; the type is named for messages. -/
def natBelow (bound : Nat) (type : String) : Decoder Nat
  | .num (.int n) => if 0 ≤ n ∧ n < bound then .ok n.toNat else .error (.outOfRange n type)
  | j => .error (.wrongType j type)

/-- A position, counter or limit: below 2^64. -/
def position : Decoder Nat := natBelow (Nat.pow 2 64) "usize"

/-- An integer stands for the nearest float. -/
def float : Decoder Float
  | .num (.int n) => .ok (Float.ofInt n)
  | .num (.float x) => .ok x
  | j => .error (.wrongType j "f64")

/-- `null` reads as absent. -/
def option (read : Decoder α) : Decoder (Option α)
  | .null => .ok none
  | j => (read j).map some

/-- The first item that does not read is the error. -/
def items (read : Decoder α) : List Json → Except DecodeError (List α)
  | [] => .ok []
  | j :: rest => do
    let a ← read j
    let as ← items read rest
    return a :: as

def list (read : Decoder α) : Decoder (List α)
  | .arr js => items read js
  | j => .error (.wrongType j "a sequence")

def texts : Decoder (List String) := list text

/-- Reads the entries of an object in order. -/
def entries (read : Decoder α) : List (String × Json) → Except DecodeError (List (String × α))
  | [] => .ok []
  | (k, j) :: rest => do
    let a ← read j
    let as ← entries read rest
    return (k, a) :: as

/-- An object with any names; of repeated names the last entry stays. -/
def table (read : Decoder α) : Decoder (Table α)
  | .obj es => (entries read es).map Table.ofList
  | j => .error (.wrongType j "a map")

/-- Any readable tree, with its objects sorted. -/
def any : Decoder Json := fun j =>
  if j.isReadable then .ok j.sorted else .error (.wrongType j "any value")

/-! ### Variants

A variant is written as its name, or as an object whose one entry has the name and holds the
data. -/

/-- The name and the data of a variant. -/
def variant : Json → Except DecodeError (String × Option Json)
  | .str name => .ok (name, none)
  | .obj [(name, data)] => .ok (name, some data)
  | .obj _ => .error .severalKeys
  | j => .error (.wrongType j "string or map")

/-- A variant without data has none, or `null`; where `bare` is set an empty object will do. -/
def noData (bare : Bool) : Option Json → Except DecodeError Unit
  | none => .ok ()
  | some .null => .ok ()
  | some (.obj []) => if bare then .ok () else .error (.wrongType (.obj []) "unit")
  | some j => .error (.wrongType j "unit")

/-- One of several variants without data. `names` gives the accepted spellings in order. -/
def choice (bare : Bool) (names : List (String × α)) : Decoder α := fun j => do
  let (name, data) ← variant j
  match names.lookup name with
  | none => .error (.unknownVariant name (names.map (·.1)))
  | some a =>
    noData bare data
    return a

end Decode

end Parley
