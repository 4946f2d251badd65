/-
  Parley.Save.FileName

  The file that holds the book of an entity. Its type and name are percent-encoded byte by
  byte: only ASCII letters, digits and `-` stand for themselves, so two underscores occur
  between the two parts and nowhere else.
-/
import Parley.State.Basic

namespace Parley.Save

/-- An upper-case hexadecimal digit. -/
def hexDigit (n : Nat) : Char :=
  if n < 10 then Char.ofNat (0x30 + n) else Char.ofNat (0x41 + (n - 10))

/-- Whether a byte stands for itself in a file name. -/
def isPlain (b : UInt8) : Bool :=
  (0x30 ≤ b && b ≤ 0x39) || (0x41 ≤ b && b ≤ 0x5A) || (0x61 ≤ b && b ≤ 0x7A) || b == 0x2D

def encodeByte (b : UInt8) : List Char :=
  if isPlain b then [Char.ofNat b.toNat]
  else ['%', hexDigit (b.toNat / 16), hexDigit (b.toNat % 16)]

/-- A text as part of a file name. -/
def encodePart (s : String) : List Char := s.toUTF8.toList.flatMap encodeByte

/-- The name of the file of an entity. -/
def fileName (e : Entity) : String :=
  String.ofList (encodePart e.type) ++ "__" ++ String.ofList (encodePart e.name) ++ ".save.json"

end Parley.Save
