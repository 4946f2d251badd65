/-
  Parley.Number.Decimal

  Decimal numbers `digits · 10^exponent`, and the text of a `Float`.

    * `Decimal.shortest x` is the decimal with the fewest digits that rounds to `|x|`,
      and of those the nearest one. It works on the bits of `x` in exact arithmetic: a
      finite float is `m · 2^q`, and the reals that round to it form an interval whose
      ends belong to it exactly when `m` is even.
    * `Decimal.Style` says how a decimal is laid out as text.
-/

namespace Parley

/-- The number `digits · 10^exponent`. -/
structure Decimal where
  digits : Nat
  exponent : Int
deriving Repr, BEq, DecidableEq

namespace Decimal

/-! ### Binary floats in exact arithmetic -/

/-- The mantissa `m` and exponent `q` with `|x| = m · 2^q`, for a finite `x`. -/
def mantissaExponent (x : Float) : Nat × Int :=
  let bits : Nat := x.toBits.toNat
  let biased : Nat := bits / Nat.pow 2 52 % Nat.pow 2 11
  let fraction : Nat := bits % Nat.pow 2 52
  if biased = 0 then (fraction, -1074) else (fraction + Nat.pow 2 52, (biased : Int) - 1075)

/-- The sign bit of a float, set for `-0.0` too. -/
def isNegative (x : Float) : Bool := x.toBits.toNat / Nat.pow 2 63 = 1

/-- The reals that round to `|x|`, as fractions `low / unit` to `high / unit` around
`middle / unit`. -/
structure Interval where
  low : Nat
  middle : Nat
  high : Nat
  unit : Nat
  /-- Whether the ends belong to the interval. -/
  closed : Bool

/-- Halfway to the neighbours on both sides. Below a power of two the floats lie twice as
dense, so there the lower end is nearer. -/
def Interval.around (x : Float) : Interval :=
  let (m, q) := mantissaExponent x
  let lower := if m = Nat.pow 2 52 ∧ q > -1074 then 4 * m - 1 else 4 * m - 2
  let scale := Nat.pow 2 (q - 2).toNat
  { low := lower * scale, middle := 4 * m * scale, high := (4 * m + 2) * scale,
    unit := Nat.pow 2 (2 - q).toNat, closed := m % 2 = 0 }

/-- Whether `c · 10^p` lies in the interval, by cross-multiplication. -/
def Interval.holds (i : Interval) (c : Nat) (p : Int) : Bool :=
  let point := c * Nat.pow 10 p.toNat * i.unit
  let low := i.low * Nat.pow 10 (-p).toNat
  let high := i.high * Nat.pow 10 (-p).toNat
  (low < point && point < high) || (i.closed && (point == low || point == high))

/-- How many decimal digits a number has; `0` has one. -/
def digitCount (n : Nat) : Nat := (Nat.toDigits 10 n).length

/-- The exponent `e` with `10^e ≤ middle / unit < 10^(e+1)`, for a positive middle. -/
def Interval.magnitude (i : Interval) : Int :=
  if i.unit ≤ i.middle then (digitCount (i.middle / i.unit) : Int) - 1
  else
    let places := digitCount (i.unit / i.middle)
    if i.unit ≤ i.middle * Nat.pow 10 (places - 1) then -((places : Int) - 1) else -(places : Int)

/-- The nearer of the two neighbours of the middle on the grid `10^p` that lie in the
interval; of two equally near ones the even one. -/
def Interval.nearest? (i : Interval) (p : Int) : Option Nat :=
  let middle := i.middle * Nat.pow 10 (-p).toNat
  let step := Nat.pow 10 p.toNat * i.unit
  let below := middle / step
  match i.holds below p, i.holds (below + 1) p with
  | false, false => none
  | true, false => some below
  | false, true => some (below + 1)
  | true, true =>
    let down := middle - below * step
    let up := (below + 1) * step - middle
    if down < up ∨ (down = up ∧ below % 2 = 0) then some below else some (below + 1)

/-- Drops trailing zeros of the digits, at most `fuel` of them. -/
def strip : Nat → Decimal → Decimal
  | 0, d => d
  | fuel + 1, d =>
    if d.digits ≠ 0 ∧ d.digits % 10 = 0 then strip fuel ⟨d.digits / 10, d.exponent + 1⟩ else d

/-- The decimal with the fewest digits that rounds to `|x|`, for a finite `x`. Seventeen
digits are always enough. -/
def shortest (x : Float) : Decimal :=
  let i := Interval.around x
  if i.middle = 0 then ⟨0, 0⟩
  else
    let top := i.magnitude
    let found := (List.range 17).findSome? fun (n : Nat) =>
      let p := top - (n : Int)
      (i.nearest? p).map fun c => strip 17 ⟨c, p⟩
    found.getD ⟨0, 0⟩

/-! ### Laying out -/

/-- How a decimal is written. -/
structure Style where
  /-- The least and the greatest power of ten of a leading digit that is written without
  exponent; `none` writes every number so. -/
  positional : Option (Int × Int)
  /-- Whether a number without fraction gets a `.0`. -/
  pointZero : Bool

def zeros (n : Nat) : String := String.ofList (List.replicate n '0')

/-- The power of ten of the leading digit. -/
def leading (d : Decimal) : Int := d.exponent + digitCount d.digits - 1

/-- Digits and decimal point, no exponent. -/
def layoutPositional (pointZero : Bool) (d : Decimal) : String :=
  let digits := toString d.digits
  if 0 ≤ d.exponent then
    digits ++ zeros d.exponent.toNat ++ (if pointZero then ".0" else "")
  else
    let places := d.exponent.natAbs
    if places < digits.length then
      let chars := digits.toList
      String.ofList (chars.take (chars.length - places)) ++ "." ++
        String.ofList (chars.drop (chars.length - places))
    else "0." ++ zeros (places - digits.length) ++ digits

/-- One digit before the point, and an exponent with its sign. -/
def layoutScientific (d : Decimal) : String :=
  let (head, tail) := match (toString d.digits).toList with
    | [] => ("", "")
    | [c] => (String.singleton c, "")
    | c :: rest => (String.singleton c, "." ++ String.ofList rest)
  let sign := if 0 ≤ d.leading then "+" else "-"
  head ++ tail ++ "e" ++ sign ++ toString d.leading.natAbs

def Style.write (style : Style) (d : Decimal) : String :=
  match style.positional with
  | none => layoutPositional style.pointZero d
  | some (low, high) =>
    if low ≤ d.leading ∧ d.leading ≤ high then layoutPositional style.pointZero d
    else layoutScientific d

/-- The text of a finite float: sign, then the shortest decimal in the given style. -/
def Style.text (style : Style) (x : Float) : String :=
  (if isNegative x then "-" else "") ++ style.write (shortest x)

end Decimal

end Parley
