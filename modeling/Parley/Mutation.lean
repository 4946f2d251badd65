/-
  Parley.Mutation

  Changing variables. Adding wants numbers and appending wants a list and texts; a variable
  that is absent or `null` counts as `0` and as the empty list. A change that fails leaves
  the scope as it was.
-/
import Parley.Action.Basic

namespace Parley

/-- Why a variable is not changed. -/
inductive MutationError where
  | typeMismatch (var expected found : String)
  | notFinite (var : String)
deriving BEq, Repr

def MutationError.message : MutationError → String
  | .typeMismatch var expected found =>
    "type mismatch for variable '" ++ var ++ "': expected " ++ expected ++ ", got " ++ found
  | .notFinite var => "result for variable '" ++ var ++ "' is not a finite number"

namespace Mutation

/-- The number that adding starts from. -/
def base (var : String) : Option Value → Except MutationError Float
  | none | some .null => .ok 0.0
  | some (.number x) => .ok x
  | some v => .error (.typeMismatch var "number" v.kind)

/-- The list that appending starts from. -/
def start (var : String) : Option Value → Except MutationError (List String)
  | none | some .null => .ok []
  | some (.list items) => .ok items
  | some v => .error (.typeMismatch var "list" v.kind)

/-- Changes the variable. The scope stands beside the failure, if there is one. -/
def apply (m : Mutation) (scope : Scope) : Scope × Except MutationError Unit :=
  match m.op with
  | .set => (scope.insert m.var m.value, .ok ())
  | .add =>
    match base m.var (scope.get? m.var) with
    | .error e => (scope, .error e)
    | .ok x =>
      match m.value with
      | .number y =>
        let sum := x + y
        if sum.isFinite then (scope.insert m.var (.number sum), .ok ())
        else (scope, .error (.notFinite m.var))
      | v => (scope, .error (.typeMismatch m.var "number" v.kind))
  | .append =>
    match start m.var (scope.get? m.var) with
    | .error e => (scope, .error e)
    | .ok items =>
      match m.value with
      | .text s => (scope.insert m.var (.list (items ++ [s])), .ok ())
      | .list more => (scope.insert m.var (.list (items ++ more)), .ok ())
      | v => (scope, .error (.typeMismatch m.var "string" v.kind))

end Mutation

/-- Gives a variable its first value; a variable that exists, even as `null`, is kept. -/
def Scope.create (scope : Scope) (name : String) (init : Value) : Scope :=
  if scope.contains name then scope else scope.insert name init

end Parley
