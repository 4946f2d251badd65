/-
  Parley.Uuid

  Random identifiers: sixteen bytes in lower-case hexadecimal, grouped 8-4-4-4-12, with the
  version (4) and the variant in their places.
-/

namespace Parley.Uuid

def hexDigit (n : Nat) : Char := (Nat.toDigits 16 n).headD '0'

def hexByte (b : UInt8) : List Char := [hexDigit (b.toNat / 16), hexDigit (b.toNat % 16)]

/-- Sets version and variant. -/
def stamp (index : Nat) (b : UInt8) : UInt8 :=
  if index = 6 then (b &&& 0x0F) ||| 0x40
  else if index = 8 then (b &&& 0x3F) ||| 0x80
  else b

/-- Whether a hyphen stands before the byte with this index. -/
def isGroupStart (index : Nat) : Bool := index = 4 || index = 6 || index = 8 || index = 10

/-- The identifier of sixteen random bytes. -/
def ofBytes (bytes : List UInt8) : String :=
  String.ofList <| (List.range 16).flatMap fun i =>
    (if isGroupStart i then ['-'] else []) ++ hexByte (stamp i (bytes.getD i 0))

end Parley.Uuid
