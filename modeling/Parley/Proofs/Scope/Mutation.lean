/-
  Parley.Proofs.Scope.Mutation

  What one change of a variable does (`apply_cases`). It writes one value (`Mutation.Writes`): the
  literal, the sum, or the list with more items at its end. Or else something is wrong with it
  (`Mutation.Unfit`): the variable or the operand is of the wrong kind, or the sum is not finite.
  Then it fails, and the scope is left as it was (`apply_of_unfit`).
-/
import Parley.Engine.Step
import Parley.Proofs.Table

namespace Parley

namespace Mutation

/-- Whether a variable can be added to: it is absent, `null` or a number. -/
def takesNumber : Option Value → Bool
  | none | some .null | some (.number _) => true
  | _ => false

/-- Whether a variable can be appended to: it is absent, `null` or a list. -/
def takesItems : Option Value → Bool
  | none | some .null | some (.list _) => true
  | _ => false

/-- The sum of a variable and an operand, where anything but a number is zero. -/
def total (old : Option Value) (operand : Value) : Float :=
  (old.bind Value.number?).getD 0.0 + operand.number?.getD 0.0

/-- The items of a variable, where anything but a list has none. -/
def itemsOf (old : Option Value) : List String := (old.bind Value.list?).getD []

/-- The value that a change writes where there was another, or none. -/
inductive Writes (m : Mutation) (old : Option Value) : Value → Prop
  | set (hop : m.op = .set) : Writes m old m.value
  | add {y : Float} (hop : m.op = .add) (hold : takesNumber old = true)
      (hvalue : m.value = .number y) (hfinite : (total old m.value).isFinite = true) :
      Writes m old (.number (total old m.value))
  | appendText {s : String} (hop : m.op = .append) (hold : takesItems old = true)
      (hvalue : m.value = .text s) : Writes m old (.list (itemsOf old ++ [s]))
  | appendItems {more : List String} (hop : m.op = .append) (hold : takesItems old = true)
      (hvalue : m.value = .list more) : Writes m old (.list (itemsOf old ++ more))

/-- What is wrong with a change, if anything is. -/
def Unfit (m : Mutation) (old : Option Value) : Prop :=
  match m.op with
  | .set => False
  | .add =>
    takesNumber old = false ∨ (∀ y, m.value ≠ .number y) ∨ (total old m.value).isFinite = false
  | .append =>
    takesItems old = false ∨ ((∀ s, m.value ≠ .text s) ∧ ∀ items, m.value ≠ .list items)

variable {m : Mutation} {old : Option Value}

/-- There is nothing wrong with a change that writes. -/
theorem Writes.not_unfit {v : Value} (h : m.Writes old v) : ¬ m.Unfit old := by
  cases h with
  | set hop => simp [Unfit, hop]
  | add hop hold hvalue hfinite =>
      rw [hvalue] at hfinite
      simp [Unfit, hop, hold, hvalue, hfinite]
  | appendText hop hold hvalue => simp [Unfit, hop, hold, hvalue]
  | appendItems hop hold hvalue => simp [Unfit, hop, hold, hvalue]

theorem base_eq (var : String) (old : Option Value) :
    base var old =
      if takesNumber old then .ok ((old.bind Value.number?).getD 0.0)
      else .error (.typeMismatch var "number" (old.getD .null).kind) := by
  rcases old with _ | v
  · rfl
  · cases v <;> rfl

theorem start_eq (var : String) (old : Option Value) :
    start var old =
      if takesItems old then .ok (itemsOf old)
      else .error (.typeMismatch var "list" (old.getD .null).kind) := by
  rcases old with _ | v
  · rfl
  · cases v <;> rfl

/-- A change writes one value and succeeds, or it fails and writes nothing. -/
theorem apply_cases (m : Mutation) (scope : Scope) :
    (∃ v, m.Writes (scope.get? m.var) v ∧ m.apply scope = (scope.insert m.var v, .ok ())) ∨
      (m.Unfit (scope.get? m.var) ∧ ∃ e, m.apply scope = (scope, .error e)) := by
  unfold apply
  cases hop : m.op with
  | set => exact .inl ⟨m.value, .set hop, rfl⟩
  | add =>
      simp only [base_eq]
      cases hold : takesNumber (scope.get? m.var) with
      | false => exact .inr ⟨by simp [Unfit, hop, hold], _, rfl⟩
      | true =>
          cases hvalue : m.value with
          | number y =>
              -- Both are numbers, so it is for the sum to decide.
              have htotal : ((scope.get? m.var).bind Value.number?).getD 0.0 + y =
                  total (scope.get? m.var) m.value := by rw [hvalue]; rfl
              simp only [if_true, htotal]
              cases hfinite : (total (scope.get? m.var) m.value).isFinite with
              | true => exact .inl ⟨_, .add hop hold hvalue hfinite, rfl⟩
              | false => exact .inr ⟨by simp [Unfit, hop, hfinite], _, rfl⟩
          | null | bool | text | list => exact .inr ⟨by simp [Unfit, hop, hvalue], _, rfl⟩
  | append =>
      simp only [start_eq]
      cases hold : takesItems (scope.get? m.var) with
      | false => exact .inr ⟨by simp [Unfit, hop, hold], _, rfl⟩
      | true =>
          cases hvalue : m.value with
          | text s => exact .inl ⟨_, .appendText hop hold hvalue, rfl⟩
          | list more => exact .inl ⟨_, .appendItems hop hold hvalue, rfl⟩
          | null | bool | number => exact .inr ⟨by simp [Unfit, hop, hvalue], _, rfl⟩

variable {scope : Scope}

/-- A change that something is wrong with fails, and leaves the scope as it was. -/
theorem apply_of_unfit (h : m.Unfit (scope.get? m.var)) :
    ∃ e, m.apply scope = (scope, .error e) := by
  rcases m.apply_cases scope with ⟨v, hwrites, -⟩ | ⟨-, hfails⟩
  · exact absurd h hwrites.not_unfit
  · exact hfails

/-- A change that nothing is wrong with writes its value. -/
theorem apply_of_fit (h : ¬ m.Unfit (scope.get? m.var)) :
    ∃ v, m.Writes (scope.get? m.var) v ∧ m.apply scope = (scope.insert m.var v, .ok ()) := by
  rcases m.apply_cases scope with hwrites | ⟨hunfit, -⟩
  · exact hwrites
  · exact absurd hunfit h

/-- A change fails just if something is wrong with it. -/
theorem apply_eq_error_iff (m : Mutation) (scope : Scope) :
    (∃ e, (m.apply scope).2 = .error e) ↔ m.Unfit (scope.get? m.var) := by
  rcases m.apply_cases scope with ⟨v, hwrites, happly⟩ | ⟨hunfit, e, happly⟩
  · simp [happly, hwrites.not_unfit]
  · simp [happly, hunfit]

end Mutation

namespace Engine

theorem get?_mutate_of_ne {m : Mutation} {other : String} (scope : Scope) (h : other ≠ m.var) :
    (mutate m scope).get? other = scope.get? other := by
  rw [mutate]
  rcases m.apply_cases scope with ⟨v, -, happly⟩ | ⟨-, e, happly⟩
  · rw [happly]
    exact Table.get?_insert_of_ne scope h v
  · rw [happly]

end Engine

end Parley
