/-
  Parley.Json.Numeral

  What a number literal stands for. Its leading digits, as many as fit 64 bits, make the
  significand; the other digits only count towards the power of ten. An integer literal
  whose digits all fit is an integer (`-0` is not one). Every other literal is a float: the
  significand as a float, times or over a power of ten, each rounded once.
-/
import Parley.Json.Basic

namespace Parley.Json

/-- The parts of a number literal. -/
structure Numeral where
  negative : Bool
  /-- The digits before the point. -/
  whole : List Char
  /-- The digits after the point. -/
  fraction : Option (List Char)
  exponent : Option Int

namespace Numeral

def isDigit (c : Char) : Bool := '0' ≤ c && c ≤ '9'

/-- The number that a digit stands for. -/
def digitValue (c : Char) : Nat := c.toNat - 0x30

/-- The number that decimal digits spell. -/
def digitsValue (ds : List Char) : Nat := ds.foldl (fun n c => n * 10 + digitValue c) 0

/-- Appends digits to a significand while it fits 64 bits; gives back the digits left over. -/
def gather : Nat → List Char → Nat × List Char
  | n, [] => (n, [])
  | n, c :: rest =>
    let m := n * 10 + digitValue c
    if m < Nat.pow 2 64 then gather m rest else (n, c :: rest)

/-- A power of ten, up to the largest that is a float. -/
def powerOfTen (n : Nat) : Float := Float.ofScientific 1 false n

/-- Divides by a power of ten, by `1e308` at a time while the power is no float. -/
def divide : Nat → Float → Nat → Float
  | 0, x, _ => x
  | fuel + 1, x, n =>
    if n ≤ 308 then x / powerOfTen n
    else if x == 0.0 then x
    else divide fuel (x / powerOfTen 308) (n - 308)

/-- The significand times a power of ten; `none` beyond the largest float. -/
def scale? (significand : Nat) (exponent : Int) : Option Float :=
  let x := Float.ofNat significand
  if exponent < 0 then
    let n := exponent.natAbs
    some (divide (n / 308 + 1) x n)
  else if exponent ≤ 308 then
    let y := x * powerOfTen exponent.toNat
    if y.isInf then none else some y
  else if x == 0.0 then some x
  else none

/-- What the literal stands for; `none` beyond the largest float. -/
def number? (l : Numeral) : Option Number :=
  let (n, dropped) := gather 0 l.whole
  match l.fraction, l.exponent, dropped with
  | none, none, [] =>
    if !l.negative then some (.int n)
    else if 0 < n ∧ n ≤ Nat.pow 2 63 then some (.int (-(n : Int)))
    else some (.float (-(Float.ofNat n)))
  | fraction, exponent, dropped =>
    let places := fraction.getD []
    let (n, unused) := gather n places
    let shift := (dropped.length : Int) - ((places.length - unused.length : Nat) : Int)
    (scale? n (exponent.getD 0 + shift)).map fun x => .float (if l.negative then -x else x)

end Numeral

end Parley.Json
