/-
  Parley.Json.Writer

  Writing JSON text, on one line (`Json.compact`) or indented by two spaces
  (`Json.pretty`). Strings escape the quote, the backslash and the controls below U+0020,
  and nothing else.
-/
import Parley.Json.Basic

namespace Parley.Json

/-- Floats always show a point or an exponent: without exponent from 1e-5 up to, not
including, 1e16. -/
def floatStyle : Decimal.Style := ⟨some (-5, 15), true⟩

/-- A number that is not finite has no JSON form and is written `null`. -/
def Number.text : Number → String
  | .int n => toString n
  | .float x => if x.isFinite then floatStyle.text x else "null"

def hexDigit (n : Nat) : Char :=
  if n < 10 then Char.ofNat (0x30 + n) else Char.ofNat (0x61 + n - 10)

/-- How a character is written inside a string. -/
def escapeChar (c : Char) : List Char :=
  if c = '"' then ['\\', '"']
  else if c = '\\' then ['\\', '\\']
  else if c = '\n' then ['\\', 'n']
  else if c = '\r' then ['\\', 'r']
  else if c = '\t' then ['\\', 't']
  else if c.toNat = 0x08 then ['\\', 'b']
  else if c.toNat = 0x0C then ['\\', 'f']
  else if c.toNat < 0x20 then
    ['\\', 'u', '0', '0', hexDigit (c.toNat / 16), hexDigit (c.toNat % 16)]
  else [c]

/-- A text as a JSON string. -/
def stringText (s : String) : String :=
  String.ofList ('"' :: s.toList.flatMap escapeChar ++ ['"'])

/-- The text of everything that is not a container. -/
def scalarText : Json → String
  | .bool true => "true"
  | .bool false => "false"
  | .num n => n.text
  | .str s => stringText s
  | _ => "null"

mutual

/-- The tree on one line, without spaces. -/
def compact : Json → String
  | .arr [] => "[]"
  | .arr (j :: rest) => "[" ++ compact j ++ compactItems rest ++ "]"
  | .obj [] => "\x7b\x7d"
  | .obj ((k, j) :: rest) =>
    "\x7b" ++ stringText k ++ ":" ++ compact j ++ compactEntries rest ++ "\x7d"
  | j => scalarText j

def compactItems : List Json → String
  | [] => ""
  | j :: rest => "," ++ compact j ++ compactItems rest

def compactEntries : List (String × Json) → String
  | [] => ""
  | (k, j) :: rest => "," ++ stringText k ++ ":" ++ compact j ++ compactEntries rest

end

/-- A new line, indented to the given level. -/
def newline (level : Nat) : String := "\n" ++ String.ofList (List.replicate (2 * level) ' ')

mutual

/-- The tree with one item or entry a line, at the given level of indentation. -/
def prettyAt (level : Nat) : Json → String
  | .arr [] => "[]"
  | .arr (j :: rest) =>
    "[" ++ newline (level + 1) ++ prettyAt (level + 1) j ++ prettyItems (level + 1) rest ++
      newline level ++ "]"
  | .obj [] => "\x7b\x7d"
  | .obj ((k, j) :: rest) =>
    "\x7b" ++ newline (level + 1) ++ stringText k ++ ": " ++ prettyAt (level + 1) j ++
      prettyEntries (level + 1) rest ++ newline level ++ "\x7d"
  | j => scalarText j

def prettyItems (level : Nat) : List Json → String
  | [] => ""
  | j :: rest => "," ++ newline level ++ prettyAt level j ++ prettyItems level rest

def prettyEntries (level : Nat) : List (String × Json) → String
  | [] => ""
  | (k, j) :: rest =>
    "," ++ newline level ++ stringText k ++ ": " ++ prettyAt level j ++ prettyEntries level rest

end

/-- The tree as indented text. -/
def pretty (j : Json) : String := prettyAt 0 j

end Parley.Json
