/-
  Parley.Text.Blank

  White space in the sense of the Unicode property White_Space, and trimming it off the
  ends of a text.
-/

namespace Parley.Text

/-- The 25 characters with the property White_Space. -/
def isBlank (c : Char) : Bool :=
  let n := c.toNat
  (0x09 ≤ n && n ≤ 0x0D) || n == 0x20 || n == 0x85 || n == 0xA0 || n == 0x1680 ||
    (0x2000 ≤ n && n ≤ 0x200A) || n == 0x2028 || n == 0x2029 || n == 0x202F || n == 0x205F ||
    n == 0x3000

/-- Drops the leading white space of a list of characters. -/
def dropBlank (cs : List Char) : List Char := cs.dropWhile isBlank

/-- Drops white space at both ends. -/
def trim (s : String) : String :=
  String.ofList (dropBlank (dropBlank s.toList).reverse).reverse

end Parley.Text
