/-
  Parley.Value

  Script values: what a variable holds and what an action carries. Numbers are floats; a
  whole number in the range of 64-bit signed integers is shown and written as an integer,
  so `-0.0` shows as `0`.
-/
import Parley.Json.Decode

namespace Parley

inductive Value where
  | null
  | bool (b : Bool)
  | number (x : Float)
  | text (s : String)
  | list (items : List String)
deriving BEq, Inhabited

namespace Value

/-- A finite number without its fraction, in exact arithmetic on its bits. -/
def truncated (x : Float) : Int :=
  let (m, q) := Decimal.mantissaExponent x
  let n : Int := (m * Nat.pow 2 q.toNat / Nat.pow 2 (-q).toNat : Nat)
  if Decimal.isNegative x then -n else n

/-- The integer equal to a number, if there is one from -2^63 up to, not including, 2^63. -/
def whole? (x : Float) : Option Int :=
  let n := truncated x
  if -(Nat.pow 2 63 : Nat) ≤ n ∧ n < (Nat.pow 2 63 : Nat) ∧ Float.ofInt n == x then some n
  else none

def ofInt (n : Int) : Value := .number (Float.ofInt n)

def isNull : Value → Bool
  | .null => true
  | _ => false

def number? : Value → Option Float
  | .number x => some x
  | _ => none

def list? : Value → Option (List String)
  | .list items => some items
  | _ => none

/-- The name of the kind of value, for messages. -/
def kind : Value → String
  | .null => "null"
  | .bool _ => "bool"
  | .number _ => "number"
  | .text _ => "string"
  | .list _ => "list"

/-! ### Text -/

/-- Numbers that are not whole are shown with all their places and no exponent. -/
def numberStyle : Decimal.Style := ⟨none, false⟩

def numberText (x : Float) : String :=
  match whole? x with
  | some n => toString n
  | none =>
    if x.isNaN then "NaN"
    else if x.isInf then (if x < 0.0 then "-inf" else "inf")
    else numberStyle.text x

/-- How a value is shown to a reader. -/
def display : Value → String
  | .null => "null"
  | .bool true => "true"
  | .bool false => "false"
  | .number x => numberText x
  | .text s => s
  | .list items => "[" ++ ", ".intercalate items ++ "]"

/-! ### JSON -/

def numberJson (x : Float) : Json :=
  match whole? x with
  | some n => .int n
  | none => .float x

def toJson : Value → Json
  | .null => .null
  | .bool b => .bool b
  | .number x => numberJson x
  | .text s => .str s
  | .list items => .texts items

/-- The texts of an array that holds nothing else. -/
def textItems? : List Json → Option (List String)
  | [] => some []
  | .str s :: rest => (textItems? rest).map (s :: ·)
  | _ :: _ => none

def ofJson? : Json → Option Value
  | .null => some .null
  | .bool b => some (.bool b)
  | .num (.int n) => some (.ofInt n)
  | .num (.float x) => some (.number x)
  | .str s => some (.text s)
  | .arr items => (textItems? items).map .list
  | _ => none

def read : Decoder Value := fun j =>
  match ofJson? j with
  | some v => .ok v
  | none => .error .notAValue

end Value

/-- Variables under their names. -/
abbrev Scope := Table Value

namespace Scope

def toJson (s : Scope) : Json := Json.ofTable Value.toJson s

def read : Decoder Scope := Decode.table Value.read

/-- `name=value` for every variable, in name order. -/
def listing (s : Scope) : List String :=
  s.entries.map fun (name, v) => name ++ "=" ++ v.display

end Scope

end Parley
