/-
  Parley.Proofs.Condition.Laws

  The laws that conditions obey. A predicate compares what a variable holds, if there is one,
  with a value. Equality is a partial equivalence that leaves out `null` and what is not a number
  (`Predicate.holds_equal_iff`), less and greater are converse, and of two finite numbers exactly
  one of the three holds (`Predicate.coherent`). Of two opposite predicates exactly one holds of
  the same operands, so of two conditional actions that differ in this alone exactly one goes on
  behind the condition (`Engine.step_opposed`).
-/
import Mathlib
import Parley.Proofs.Engine.Step
import Parley.Proofs.Number.Order
import Parley.Proofs.Value.Json

namespace Parley

/-! ### Values -/

namespace Value

/-- Equal values: both are there and of one kind, numbers are equal as floats, and all else is
    the same. -/
inductive Same : Value → Value → Prop
  | bool (b : Bool) : Same (.bool b) (.bool b)
  | number {x y : Float} (h : (x == y) = true) : Same (.number x) (.number y)
  | text (s : String) : Same (.text s) (.text s)
  | list (items : List String) : Same (.list items) (.list items)

theorem Same.symm {a b : Value} (h : Same a b) : Same b a := by
  cases h with
  | bool b => exact .bool b
  | number h => exact .number (Binary64.beq_symm h)
  | text s => exact .text s
  | list items => exact .list items

theorem Same.trans {a b c : Value} (hab : Same a b) (hbc : Same b c) : Same a c := by
  cases hab with
  | number hxy =>
      cases hbc with
      | number hyz => exact .number (Binary64.beq_trans hxy hyz)
  | bool | text | list => exact hbc

theorem Same.refl {a : Value} (hnull : a ≠ .null) (hfinite : a.Finite) : Same a a := by
  cases a with
  | null => exact absurd rfl hnull
  | bool b => exact .bool b
  | number x => exact .number (beq_self_of_isFinite hfinite)
  | text s => exact .text s
  | list items => exact .list items

theorem beq_iff {a b : Value} : (a == b) = true ↔ (a = .null ∧ b = .null) ∨ Same a b := by
  constructor
  · intro h
    cases a <;> cases b <;> try cases h
    case null.refl => exact .inl ⟨rfl, rfl⟩
    case bool b b' =>
      obtain rfl : b = b' := beq_iff_eq.1 h
      exact .inr (.bool b)
    case number x y => exact .inr (.number h)
    case text s s' =>
      obtain rfl : s = s' := beq_iff_eq.1 h
      exact .inr (.text s)
    case list items items' =>
      obtain rfl : items = items' := beq_iff_eq.1 h
      exact .inr (.list items)
  · rintro (⟨rfl, rfl⟩ | h)
    · rfl
    · cases h with
      | number h => exact h
      | bool b => exact beq_self_eq_true b
      | text s => exact beq_self_eq_true s
      | list items => exact beq_self_eq_true items

theorem Same.ne_null {a b : Value} (h : Same a b) : a ≠ .null := by
  rintro rfl
  cases h

/-- What a filter leaves of a value that may be `null` or missing. -/
theorem filter_isNull_eq_some_iff {stored : Option Value} {a : Value} :
    stored.filter (!·.isNull) = some a ↔ stored = some a ∧ a ≠ .null := by
  rw [Option.filter_eq_some_iff]
  refine and_congr_right fun _ => ?_
  cases a <;> simp [isNull]

theorem equals_eq_beq (a b : Value) : a.equals b = (a == b) := by
  cases a <;> cases b <;> rfl

end Value

/-! ### Predicates -/

namespace Predicate

variable {stored : Option Value} {expected : Value} {isDay : Bool}

/-- Only what is there can be equal to something, and `null` is not. -/
theorem holds_equal_iff :
    holds .equal stored expected isDay = true ↔ ∃ a, stored = some a ∧ a.Same expected := by
  simp only [holds]
  constructor
  · intro h
    split at h
    · rename_i a b ha hb
      obtain ⟨rfl, hnull⟩ := Value.filter_isNull_eq_some_iff.1 ha
      obtain ⟨⟨⟩, -⟩ := Value.filter_isNull_eq_some_iff.1 hb
      rw [Value.equals_eq_beq, Value.beq_iff] at h
      exact ⟨a, rfl, h.resolve_left fun hboth => hnull hboth.1⟩
    · cases h
  · rintro ⟨a, rfl, hsame⟩
    rw [Value.filter_isNull_eq_some_iff.2 ⟨rfl, hsame.ne_null⟩,
      Value.filter_isNull_eq_some_iff.2 ⟨rfl, hsame.symm.ne_null⟩]
    exact (Value.equals_eq_beq a expected).trans (Value.beq_iff.2 (.inr hsame))

/-- Where one of the two values is missing, nothing is equal and everything is different. -/
theorem holds_notEqual (stored : Option Value) (expected : Value) (isDay : Bool) :
    holds .notEqual stored expected isDay = !holds .equal stored expected isDay := by
  simp only [holds]
  cases stored.filter (!·.isNull) with
  | none => rfl
  | some a => cases (some expected).filter (!·.isNull) <;> rfl

/-- The predicate that holds just where the given one does not, if the script can name it. -/
def opposite? : Predicate → Option Predicate
  | .equal => some .notEqual
  | .notEqual => some .equal
  | .day => some .night
  | .night => some .day
  | .lessThan | .greaterThan => none

theorem holds_opposite {p q : Predicate} (h : p.opposite? = some q) (stored : Option Value)
    (expected : Value) (isDay : Bool) :
    q.holds stored expected isDay = !p.holds stored expected isDay := by
  cases p with
  | equal =>
      cases h
      exact holds_notEqual stored expected isDay
  | notEqual =>
      cases h
      rw [holds_notEqual, Bool.not_not]
  | day =>
      cases h
      rfl
  | night =>
      cases h
      exact (Bool.not_not isDay).symm
  | lessThan | greaterThan => cases h

theorem numbers_eq_some {a b : Option Value} {x y : Float} (h : numbers a b = some (x, y)) :
    a = some (.number x) ∧ b = some (.number y) := by
  rcases a with _ | _ | _ | _ | _ | _ <;> try cases h
  rcases b with _ | _ | _ | _ | _ | _ <;> cases h
  exact ⟨rfl, rfl⟩

/-- What compares as numbers are numbers. -/
theorem eq_number_of_any {test : Float × Float → Bool}
    (h : (numbers (stored.filter (!·.isNull)) ((some expected).filter (!·.isNull))).any test =
      true) : ∃ x y, stored = some (.number x) ∧ expected = .number y := by
  obtain ⟨⟨x, y⟩, hnumbers, -⟩ := (Option.any_eq_true ..).1 h
  obtain ⟨hstored, hexpected⟩ := numbers_eq_some hnumbers
  obtain ⟨rfl, -⟩ := Value.filter_isNull_eq_some_iff.1 hstored
  obtain ⟨⟨⟩, -⟩ := Value.filter_isNull_eq_some_iff.1 hexpected
  exact ⟨x, y, rfl, rfl⟩

section Numbers

variable (x y : Float) (isDay : Bool)

theorem holds_equal_numbers : holds .equal (some (.number x)) (.number y) isDay = (x == y) := by
  simp [holds, Option.filter, Value.isNull, Value.equals, Value.number?]

theorem holds_lessThan_numbers :
    holds .lessThan (some (.number x)) (.number y) isDay = decide (x < y) := by
  simp [holds, numbers, Option.filter, Value.isNull, Value.number?]

theorem holds_greaterThan_numbers :
    holds .greaterThan (some (.number x)) (.number y) isDay = decide (x > y) := by
  simp [holds, numbers, Option.filter, Value.isNull, Value.number?]

end Numbers

theorem numbers_swap (a b : Option Value) : numbers a b = (numbers b a).map Prod.swap := by
  rcases a with _ | _ | _ | _ | _ | _ <;> rcases b with _ | _ | _ | _ | _ | _ <;> rfl

/-- The first value is less just if the second is greater. -/
theorem holds_converse (isDay : Bool) (a b : Value) :
    holds .lessThan (some a) b isDay = holds .greaterThan (some b) a isDay := by
  simp only [holds]
  rw [numbers_swap, Option.any_map]
  rfl

/-- The laws of the predicates, at one time of day. -/
structure Coherent (isDay : Bool) : Prop where
  negated (stored : Option Value) (expected : Value) :
    holds .notEqual stored expected isDay = !holds .equal stored expected isDay
  symmetric (a b : Value) : holds .equal (some a) b isDay = holds .equal (some b) a isDay
  reflexive {a : Value} (hnull : a ≠ .null) (hfinite : a.Finite) :
    holds .equal (some a) a isDay = true
  transitive {a b c : Value} (hab : holds .equal (some a) b isDay = true)
    (hbc : holds .equal (some b) c isDay = true) : holds .equal (some a) c isDay = true
  converse (a b : Value) : holds .lessThan (some a) b isDay = holds .greaterThan (some b) a isDay
  /-- Only numbers are less or greater. -/
  numbers {stored : Option Value} {expected : Value}
    (h : holds .lessThan stored expected isDay = true ∨
      holds .greaterThan stored expected isDay = true) :
    ∃ x y, stored = some (.number x) ∧ expected = .number y
  /-- Of two finite numbers exactly one of the three holds. -/
  trichotomous {x y : Float} (hx : x.isFinite = true) (hy : y.isFinite = true) :
    [holds .lessThan (some (.number x)) (.number y) isDay,
      holds .equal (some (.number x)) (.number y) isDay,
      holds .greaterThan (some (.number x)) (.number y) isDay].count true = 1
  /-- A variable that holds `null` might as well be absent. -/
  absent (p : Predicate) (expected : Value) :
    p.holds (some .null) expected isDay = p.holds none expected isDay
  day (stored : Option Value) (expected : Value) : holds .day stored expected isDay = isDay
  night (stored : Option Value) (expected : Value) : holds .night stored expected isDay = !isDay

theorem coherent (isDay : Bool) : Coherent isDay where
  negated stored expected := holds_notEqual stored expected isDay
  symmetric a b := by
    rw [Bool.eq_iff_iff, holds_equal_iff, holds_equal_iff]
    simp only [Option.some.injEq, exists_eq_left']
    exact ⟨.symm, .symm⟩
  reflexive hnull hfinite := holds_equal_iff.2 ⟨_, rfl, .refl hnull hfinite⟩
  transitive hab hbc := by
    obtain ⟨_, ⟨⟩, hab⟩ := holds_equal_iff.1 hab
    obtain ⟨_, ⟨⟩, hbc⟩ := holds_equal_iff.1 hbc
    exact holds_equal_iff.2 ⟨_, rfl, hab.trans hbc⟩
  converse := holds_converse isDay
  numbers h := h.elim eq_number_of_any eq_number_of_any
  trichotomous hx hy := by
    rw [holds_lessThan_numbers, holds_equal_numbers, holds_greaterThan_numbers]
    exact Binary64.lt_eq_gt_of_isFinite hx hy
  absent _ _ := rfl
  day _ _ := rfl
  night _ _ := rfl

end Predicate

/-! ### Conditions -/

theorem Condition.holds_opposite {c : Condition} {q : Predicate}
    (h : c.predicate.opposite? = some q) (scope : Scope) (isDay : Bool) :
    Condition.holds { c with predicate := q } scope isDay = !c.holds scope isDay :=
  Predicate.holds_opposite h (c.stored scope) c.value isDay

/-- Two conditional actions that differ in their predicates alone, and these are opposite. -/
inductive Action.Opposed (c : Condition) : Action → Action → Prop
  | ofLocals {q : Predicate} (h : c.predicate.opposite? = some q) :
      Opposed c (.whenLocal c) (.whenLocal { c with predicate := q })
  | ofGlobals {q : Predicate} (h : c.predicate.opposite? = some q) :
      Opposed c (.whenGlobal c) (.whenGlobal { c with predicate := q })

namespace Engine

variable {c : Condition} {s : State}

/-- Of two executions one goes on behind its action, and the other somewhere else. -/
structure PartWays (t t' : Transition) (next target : Nat) : Prop where
  proceed : t.outcome = .proceed ∧ t'.outcome = .proceed
  apart : Xor (t.state.pc = next ∧ t'.state.pc = target) (t.state.pc = target ∧ t'.state.pc = next)

theorem settle_opposed {e e' : Execution} {pc target : Nat} (hpc : e.state.pc = pc)
    (hpc' : e'.state.pc = pc) (hne : target ≠ pc + 1)
    (h : (e.flow = .next ∧ e'.flow = .goto target) ∨ (e.flow = .goto target ∧ e'.flow = .next)) :
    PartWays e.settle e'.settle (pc + 1) target := by
  rcases h with ⟨hflow, hflow'⟩ | ⟨hflow, hflow'⟩
  · have hnext : e.settle.state.pc = pc + 1 := by rw [Execution.settle, hflow, hpc]
    have htarget : e'.settle.state.pc = target := by rw [Execution.settle, hflow']
    refine ⟨⟨?_, ?_⟩, .inl ⟨⟨hnext, htarget⟩, ?_⟩⟩
    · rw [Execution.settle, hflow]
    · rw [Execution.settle, hflow']
    · rintro ⟨hsame, -⟩
      exact hne (hsame.symm.trans hnext)
  · have htarget : e.settle.state.pc = target := by rw [Execution.settle, hflow]
    have hnext : e'.settle.state.pc = pc + 1 := by rw [Execution.settle, hflow', hpc']
    refine ⟨⟨?_, ?_⟩, .inr ⟨⟨htarget, hnext⟩, ?_⟩⟩
    · rw [Execution.settle, hflow]
    · rw [Execution.settle, hflow']
    · rintro ⟨hsame, -⟩
      exact hne (htarget.symm.trans hsame)

theorem branch_opposite {q : Predicate} (h : c.predicate.opposite? = some q) (scope : Scope)
    (isDay : Bool) :
    (branch c scope isDay = .next ∧
        branch { c with predicate := q } scope isDay = .goto c.otherwise) ∨
      (branch c scope isDay = .goto c.otherwise ∧
        branch { c with predicate := q } scope isDay = .next) := by
  have hopposite := Condition.holds_opposite h scope isDay
  unfold branch
  rw [hopposite]
  cases c.holds scope isDay with
  | true => exact .inl ⟨rfl, rfl⟩
  | false => exact .inr ⟨rfl, rfl⟩

/-- Where two conditional actions with opposite predicates stand at the same position, one goes on
    behind it and the other where the condition sends those that fail. -/
theorem step_opposed {p p' : Program} {settings : Settings} {a a' : Action} (hs : Active s)
    (hopposed : a.Opposed c a') (hne : c.otherwise ≠ s.pc + 1) (hslot : p.fetch s.pc = .action a)
    (hslot' : p'.fetch s.pc = .action a') :
    PartWays (step p settings s) (step p' settings s) (s.pc + 1) c.otherwise := by
  rw [step_of_action hs hslot, step_of_action hs hslot']
  cases hopposed with
  | ofLocals h => exact settle_opposed rfl rfl hne (branch_opposite h s.locals s.isDay)
  | ofGlobals h => exact settle_opposed rfl rfl hne (branch_opposite h s.globals s.isDay)

/-- Conditions obey the laws of a logic. At either time of day the predicates do, on whatever a
    variable holds or without any; a condition tests what its variable holds; and of two
    conditional actions that differ in opposite predicates alone, exactly one goes on behind its
    position and the other where the condition sends those that fail, if that is somewhere else. -/
theorem conditions_coherent :
    (∀ isDay, Predicate.Coherent isDay) ∧
    (∀ (c : Condition) (scope : Scope) (isDay : Bool),
      c.holds scope isDay = c.predicate.holds (c.var.bind scope.get?) c.value isDay) ∧
    ∀ (p p' : Program) (settings : Settings) (s : State) (c : Condition) (a a' : Action),
      Active s → a.Opposed c a' → c.otherwise ≠ s.pc + 1 →
      p.fetch s.pc = .action a → p'.fetch s.pc = .action a' →
      PartWays (step p settings s) (step p' settings s) (s.pc + 1) c.otherwise :=
  ⟨Predicate.coherent, fun _ _ _ => rfl, fun _ _ _ _ _ _ _ hs hopposed hne hslot hslot' =>
    step_opposed hs hopposed hne hslot hslot'⟩

/-- The two zeros are equal, `null` equals nothing, and a condition that sends those that fail
    back to itself parts ways with its opposite. -/
theorem conditions_coherent_of_zeros :
    let c : Condition := ⟨some "gold", .equal, .number 0.0, 0⟩
    let p := Program.ofActions [.whenGlobal c]
    let p' := Program.ofActions [.whenGlobal { c with predicate := .notEqual }]
    let s : State := { globals := .ofList [("gold", .number (-0.0)), ("met", .null)] }
    c.holds s.globals s.isDay = true ∧
    Predicate.holds .equal (some (.number (-0.0))) (.number (-0.0)) true = true ∧
    Predicate.holds .equal (some .null) .null true = false ∧
    [Predicate.holds .lessThan (some (.number (-0.0))) (.number 0.0) true,
      Predicate.holds .equal (some (.number (-0.0))) (.number 0.0) true,
      Predicate.holds .greaterThan (some (.number (-0.0))) (.number 0.0) true].count true = 1 ∧
    PartWays (step p {} s) (step p' {} s) 1 0 := by
  intro c p p' s
  obtain ⟨hcoherent, htest, hpart⟩ := conditions_coherent
  have hholds : c.holds s.globals s.isDay = true := by
    rw [htest]
    decide +kernel
  have hfinite : (-0.0 : Float).isFinite = true ∧ (0.0 : Float).isFinite = true := by
    decide +kernel
  have hopposed :
      Action.Opposed c (.whenGlobal c) (.whenGlobal { c with predicate := .notEqual }) :=
    .ofGlobals rfl
  exact ⟨hholds, (hcoherent true).reflexive nofun hfinite.1, ((hcoherent true).absent ..).trans rfl,
    (hcoherent true).trichotomous hfinite.1 hfinite.2,
    hpart p p' {} s c _ _ (.inl rfl) hopposed (by decide) rfl rfl⟩

end Engine

end Parley
