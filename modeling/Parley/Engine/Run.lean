/-
  Parley.Engine.Run

  Runs and inputs. A run repeats steps until the script waits, finishes or aborts, at most
  as often as the settings allow. An input takes a suspended state on: an answer to the
  pending choices, going on past a line, or stopping.
-/
import Parley.Engine.Step

namespace Parley.Engine

/-- Repeats steps, at most `fuel` of them; `done` steps with the given effects lie behind.
Without fuel the session is aborted, reporting `limit`. -/
def loop (p : Program) (settings : Settings) (limit : Nat) :
    Nat → State → List Effect → Nat → State × Output
  | 0, s, effects, done =>
    let cause := Abort.stepLimit limit
    ({ s with status := .aborted cause }, ⟨.aborted cause, effects, done⟩)
  | fuel + 1, s, effects, done =>
    let t := step p settings s
    match t.outcome with
    | .proceed => loop p settings limit fuel t.state (effects ++ t.effects) (done + 1)
    | outcome => (t.state, ⟨outcome, effects ++ t.effects, done + 1⟩)

/-- Runs until the script waits, finishes or aborts. The one-shots of the last slice end
when a new one begins; a state that waits or has ended stays as it is. -/
def run (p : Program) (settings : Settings) (s : State) : State × Output :=
  match restingOutcome? s.status with
  | some outcome => (s, ⟨outcome, [], 0⟩)
  | none =>
    loop p settings settings.maxSteps settings.maxSteps { s with screen := s.screen.clearOneShots }
      [] 0

/-- Ends a session from outside, unless it has ended. -/
def stop (s : State) : State :=
  if s.status.isTerminal then s
  else { s with screen := { s.screen with choices := [] }, status := .finished .stopped }

/-- Answers the pending choices. A label that does not resolve aborts the session. -/
def choose (p : Program) (s : State) (label : String) : State × Except InputError Unit :=
  if s.status ≠ .awaiting .choice then (s, .error .notAwaitingChoice)
  else if !s.screen.choices.any (·.label == label) then (s, .error (.unknownChoice label))
  else
    match p.target label with
    | none =>
      let cause := Abort.unresolvedLabel label s.pc
      ({ s with status := .aborted cause }, .error (.aborted cause))
    | some target =>
      ({ s with pc := target, status := .running, screen := { s.screen with choices := [] } },
        .ok ())

/-- Goes on past a line. -/
def advance (s : State) : State × Except InputError Unit :=
  if s.status ≠ .awaiting .advance then (s, .error .notAwaitingAdvance)
  else ({ s with status := .running }, .ok ())

/-- Applies an input to a state. -/
def resume (p : Program) (s : State) : Input → State × Except InputError Unit
  | .choose label => choose p s label
  | .advance => advance s
  | .stop => (stop s, .ok ())

end Parley.Engine
