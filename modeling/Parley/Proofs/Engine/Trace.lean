/-
  Parley.Proofs.Engine.Trace

  What a run executes. `executed` lists the actions of a run in order, `visited` the states in
  which they are executed.

  A part of the state that moving on leaves alone, and that an action changes by a function of
  that part (`Written`), is after a run what the actions of the run made of it, one after another
  (`Written.run`), and so it is before every step of the run (`Written.visitedWithin`). If neither
  an input nor the beginning of a run touches it either, it is `Recorded`. The two scopes are such
  parts.
-/
import Parley.Proofs.Engine.Run

namespace Parley

/-- The action at a position, if there is one. -/
def Program.action? (p : Program) (position : Nat) : Option Action :=
  match p.fetch position with
  | .action a => some a
  | _ => none

theorem Program.action?_of_fetch {p : Program} {position : Nat} {a : Action}
    (h : p.fetch position = .action a) : p.action? position = some a := by
  rw [action?, h]

theorem Program.action?_eq_some_iff {p : Program} {position : Nat} {a : Action} :
    p.action? position = some a ↔ p.fetch position = .action a := by
  unfold action?
  cases p.fetch position <;> simp

/-- The local variables after some actions. -/
def Scope.writtenBy (scope : Scope) (settings : Settings) (actions : List Action) : Scope :=
  actions.foldl (fun scope a => a.writeLocals settings scope) scope

theorem Scope.writtenBy_writtenBy (scope : Scope) (settings : Settings) (as bs : List Action) :
    (scope.writtenBy settings as).writtenBy settings bs = scope.writtenBy settings (as ++ bs) :=
  List.foldl_append.symm

/-- The global variables after some actions. -/
def Scope.writtenGloballyBy (scope : Scope) (actions : List Action) : Scope :=
  actions.foldl (fun scope a => a.writeGlobals scope) scope

namespace Engine

/-! ### Runs -/

/-- The states that at most `fuel` steps start from. -/
def visitedWithin (p : Program) (settings : Settings) : Nat → State → List State
  | 0, _ => []
  | fuel + 1, s =>
    s :: match (step p settings s).outcome with
      | .proceed => visitedWithin p settings fuel (step p settings s).state
      | _ => []

/-- The states that the steps of a run start from. -/
def visited (p : Program) (settings : Settings) (s : State) : List State :=
  match restingOutcome? s.status with
  | some _ => []
  | none => visitedWithin p settings settings.maxSteps { s with screen := s.screen.clearOneShots }

/-- The actions that at most `fuel` steps execute. -/
def executedWithin (p : Program) (settings : Settings) : Nat → State → List Action
  | 0, _ => []
  | fuel + 1, s =>
    (p.action? s.pc).toList ++
      match (step p settings s).outcome with
      | .proceed => executedWithin p settings fuel (step p settings s).state
      | _ => []

/-- The actions that a run executes. -/
def executed (p : Program) (settings : Settings) (s : State) : List Action :=
  match restingOutcome? s.status with
  | some _ => []
  | none => executedWithin p settings settings.maxSteps { s with screen := s.screen.clearOneShots }

/-- What stands at the positions of some states, in order. -/
def actionsAt (p : Program) (states : List State) : List Action :=
  states.flatMap fun s => (p.action? s.pc).toList

theorem actionsAt_concat (p : Program) (states : List State) (s : State) :
    actionsAt p (states ++ [s]) = actionsAt p states ++ (p.action? s.pc).toList := by
  simp [actionsAt]

theorem mem_actionsAt {p : Program} {states : List State} {a : Action}
    (h : a ∈ actionsAt p states) : ∃ position, p.fetch position = .action a := by
  rw [actionsAt, List.mem_flatMap] at h
  obtain ⟨t, -, ha⟩ := h
  exact ⟨t.pc, Program.action?_eq_some_iff.1 (by simpa using ha)⟩

theorem executedWithin_eq (p : Program) (settings : Settings) (fuel : Nat) (s : State) :
    executedWithin p settings fuel s = actionsAt p (visitedWithin p settings fuel s) := by
  induction fuel generalizing s with
  | zero => rfl
  | succ fuel ih =>
      rw [executedWithin, visitedWithin, actionsAt, List.flatMap_cons]
      congr 1
      cases (step p settings s).outcome with
      | proceed => exact ih _
      | awaiting | finished | aborted => rfl

/-- The actions of a run are those at the positions of the states that it visits. -/
theorem executed_eq (p : Program) (settings : Settings) (s : State) :
    executed p settings s = actionsAt p (visited p settings s) := by
  rw [executed, visited]
  cases restingOutcome? s.status with
  | some outcome => rfl
  | none => exact executedWithin_eq p settings _ _

/-! ### Parts that actions write -/

/-- A part of the state that moving on leaves alone and that an action changes by a function of
    that part. -/
structure Written {β : Type} (settings : Settings) (part : State → β)
    (write : Action → β → β) : Prop where
  performed (s : State) (a : Action) : part (perform settings s a) = write a (part s)
  moved (s : State) (pc : Nat) (status : Status) : part { s with pc, status } = part s

/-- A part of the state that only actions change: neither the time of day, nor an answer to
    choices, nor the end of the one-shots touches it. -/
structure Recorded {β : Type} (settings : Settings) (part : State → β)
    (write : Action → β → β) : Prop extends Written settings part write where
  kept (s : State) (isDay : Bool) (choices : List ChoiceOption) (command sound : Option String) :
    part { s with isDay, screen := { s.screen with choices, command, sound } } = part s

theorem recorded_locals (settings : Settings) :
    Recorded settings State.locals (Action.writeLocals settings) where
  performed _ _ := rfl
  moved _ _ _ := rfl
  kept _ _ _ _ _ := rfl

theorem recorded_globals (settings : Settings) :
    Recorded settings State.globals Action.writeGlobals where
  performed _ _ := rfl
  moved _ _ _ := rfl
  kept _ _ _ _ _ := rfl

section Written

variable {β : Type} {p : Program} {settings : Settings} {part : State → β}
  {write : Action → β → β}

theorem Written.step (h : Written settings part write) {s : State} (hs : Active s) :
    part (step p settings s).state =
      (p.action? s.pc).toList.foldl (fun b a => write a b) (part s) := by
  have hstep := step_cases p settings hs
  generalize Engine.step p settings s = t at hstep ⊢
  cases hstep with
  | ended hslot | malformed hslot =>
      rw [Program.action?, hslot]
      exact h.moved s s.pc _
  | @next a hslot | @goto a _ hslot | @await a _ _ hslot | @finish a _ hslot | @abort a _ hslot =>
      -- Moving on sets position and status, which the part does not see.
      rw [Program.action?_of_fetch hslot, Option.toList_some, List.foldl_cons, List.foldl_nil,
        ← h.performed s a]
      exact h.moved (perform settings s a) _ _

theorem Written.loop (h : Written settings part write) {limit fuel : Nat} {s : State}
    (hs : Active s) (effects : List Effect) (done : Nat) :
    part (loop p settings limit fuel s effects done).1 =
      (executedWithin p settings fuel s).foldl (fun b a => write a b) (part s) := by
  -- Along the loop: the first step leaves what its action wrote, and the rest starts from there.
  induction fuel generalizing s effects done with
  | zero => exact h.moved s s.pc _
  | succ fuel ih =>
      rw [Engine.loop, executedWithin, List.foldl_append, ← h.step hs]
      cases houtcome : (Engine.step p settings s).outcome with
      | proceed => exact ih (step_active hs houtcome) _ _
      | awaiting | finished | aborted => rfl

/-- A written part after a run is what the actions of the run made of what it was at its
    beginning, where the one-shots of the last run have ended. -/
theorem Written.run (h : Written settings part write) {s : State} (hs : Active s) :
    part (run p settings s).1 =
      (executed p settings s).foldl (fun b a => write a b)
        (part { s with screen := s.screen.clearOneShots }) := by
  rw [Engine.run, executed, restingOutcome?_eq_none.2 hs]
  have hfresh : Active { s with screen := s.screen.clearOneShots } := hs
  exact h.loop hfresh [] 0

/-- A written part before a step is what the actions of the steps before made of it. -/
theorem Written.visitedWithin (h : Written settings part write) {fuel : Nat} {s t : State}
    (hs : Active s) {before rest : List State}
    (hvisited : visitedWithin p settings fuel s = before ++ t :: rest) :
    Active t ∧ part t = (actionsAt p before).foldl (fun b a => write a b) (part s) := by
  induction fuel generalizing s before with
  | zero => simp [Engine.visitedWithin] at hvisited
  | succ fuel ih =>
      rw [Engine.visitedWithin] at hvisited
      cases before with
      | nil =>
          obtain ⟨rfl, -⟩ := List.cons.inj hvisited
          exact ⟨hs, rfl⟩
      | cons u before =>
          obtain ⟨rfl, htail⟩ := List.cons.inj hvisited
          cases houtcome : (Engine.step p settings s).outcome with
          | proceed =>
              rw [houtcome] at htail
              obtain ⟨hactive, hpart⟩ := ih (step_active hs houtcome) htail
              rw [h.step hs, ← List.foldl_append] at hpart
              exact ⟨hactive, hpart⟩
          | awaiting | finished | aborted =>
              rw [houtcome] at htail
              simp at htail

theorem Recorded.fresh (h : Recorded settings part write) (s : State) :
    part { s with screen := s.screen.clearOneShots } = part s :=
  h.kept s s.isDay s.screen.choices none none

/-- A recorded part after a run is what its actions made of it. -/
theorem Recorded.run (h : Recorded settings part write) (s : State) :
    part (run p settings s).1 =
      (executed p settings s).foldl (fun b a => write a b) (part s) := by
  cases hresting : restingOutcome? s.status with
  | some outcome =>
      rw [Engine.run, executed, hresting]
      rfl
  | none => rw [h.toWritten.run (restingOutcome?_eq_none.1 hresting), h.fresh]

/-- A recorded part before a step of a run is what the actions before it made of it. -/
theorem Recorded.visited (h : Recorded settings part write) {s t : State}
    {before rest : List State} (hvisited : visited p settings s = before ++ t :: rest) :
    Active t ∧ part t = (actionsAt p before).foldl (fun b a => write a b) (part s) := by
  rw [Engine.visited] at hvisited
  cases hresting : restingOutcome? s.status with
  | some outcome =>
      rw [hresting] at hvisited
      simp at hvisited
  | none =>
      rw [hresting] at hvisited
      have hfresh : Active { s with screen := s.screen.clearOneShots } :=
        restingOutcome?_eq_none.1 hresting
      rw [← h.fresh s]
      exact h.toWritten.visitedWithin hfresh hvisited

end Written

end Engine

end Parley
