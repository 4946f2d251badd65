/-
  Parley.Text.Quoted

  Text in double quotes, as diagnostics show it. Quotes, backslashes and the common
  controls get a short escape, every other unprintable character its code point in
  braces, and all else stands for itself.
-/
import Parley.Text.Unprintable

namespace Parley.Text

/-- The escape of a code point: its hexadecimal digits in braces. -/
def codePointEscape (c : Char) : String :=
  "\\u\x7b" ++ String.ofList (Nat.toDigits 16 c.toNat) ++ "\x7d"

def escapeChar (c : Char) : String :=
  if c = '"' then "\\\""
  else if c = '\\' then "\\\\"
  else if c = '\n' then "\\n"
  else if c = '\t' then "\\t"
  else if c = '\r' then "\\r"
  else if c.toNat = 0 then "\\0"
  else if isUnprintable c then codePointEscape c
  else String.singleton c

/-- The text between double quotes, with escapes. -/
def quoted (s : String) : String :=
  "\"" ++ String.join (s.toList.map escapeChar) ++ "\""

end Parley.Text
