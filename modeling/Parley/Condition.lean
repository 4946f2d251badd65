/-
  Parley.Condition

  Conditions. A variable that is absent and one that holds `null` are alike; comparing
  values of different kinds makes a comparison false, and `not_equal` true.
-/
import Parley.Action.Basic

namespace Parley

/-- Whether two values are equal: numbers as floats, all else by content. -/
def Value.equals (a b : Value) : Bool :=
  match a.number?, b.number? with
  | some x, some y => x == y
  | _, _ => a == b

namespace Predicate

/-- Two values as numbers, if both are there and are numbers. -/
def numbers (a b : Option Value) : Option (Float × Float) := do
  let x ← (← a).number?
  let y ← (← b).number?
  return (x, y)

/-- The truth of a predicate on what is stored, if anything is, and an expected value. Where
`null` stands there is no value to compare. -/
def holds (p : Predicate) (stored : Option Value) (expected : Value) (isDay : Bool) : Bool :=
  let stored := stored.filter (!·.isNull)
  let expected := (some expected).filter (!·.isNull)
  match p with
  | .equal =>
    match stored, expected with
    | some a, some b => a.equals b
    | _, _ => false
  | .notEqual =>
    match stored, expected with
    | some a, some b => !a.equals b
    | _, _ => true
  | .lessThan => (numbers stored expected).any fun (x, y) => x < y
  | .greaterThan => (numbers stored expected).any fun (x, y) => x > y
  | .day => isDay
  | .night => !isDay

end Predicate

/-- What the variable that a condition names holds; nothing if it names none. -/
def Condition.stored (c : Condition) (scope : Scope) : Option Value := c.var.bind scope.get?

/-- The truth of a condition in a scope. -/
def Condition.holds (c : Condition) (scope : Scope) (isDay : Bool) : Bool :=
  c.predicate.holds (c.stored scope) c.value isDay

end Parley
