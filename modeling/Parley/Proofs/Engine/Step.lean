/-
  Parley.Proofs.Engine.Step

  What one step can do. A step of a state that waits or has ended does nothing; a step of an
  active state is one of the cases of `Stepped`, each with the slot it met and the state it
  leaves. Everything proved about runs goes through `step_cases`; nobody unfolds `step` again.
-/
import Parley.Proofs.Engine.Parts

namespace Parley.Engine

/-- Whether a step of the state executes something. -/
def Active (s : State) : Prop := s.status = .idle ∨ s.status = .running

theorem restingOutcome?_eq_none {s : State} : restingOutcome? s.status = none ↔ Active s := by
  unfold Active
  cases s.status <;> simp [restingOutcome?]

/-- The state that an action leaves behind, before execution moves on. -/
def perform (settings : Settings) (s : State) (a : Action) : State :=
  { s with
    status := .running
    locals := a.writeLocals settings s.locals
    globals := a.writeGlobals s.globals
    screen := a.paint s.isDay s.screen
    seed := reseed settings s.locals s.seed a }

/-! ### The cases of a step -/

/-- What a step of an active state can be. -/
inductive Stepped (p : Program) (settings : Settings) (s : State) : Transition → Prop where
  | ended (hslot : p.fetch s.pc = .endOfProgram) :
      Stepped p settings s ⟨{ s with status := .finished .endOfScript }, .finished, []⟩
  | malformed {tag reason : String} (hslot : p.fetch s.pc = .malformed tag reason) :
      Stepped p settings s
        ⟨{ s with status := .aborted (.malformedAction s.pc tag reason) },
          .aborted (.malformedAction s.pc tag reason), []⟩
  | next {a : Action} (hslot : p.fetch s.pc = .action a)
      (hflow : flowOf p settings s a = .next) :
      Stepped p settings s
        ⟨{ perform settings s a with pc := s.pc + 1 }, .proceed, a.requests⟩
  | goto {a : Action} {target : Nat} (hslot : p.fetch s.pc = .action a)
      (hflow : flowOf p settings s a = .goto target) :
      Stepped p settings s ⟨{ perform settings s a with pc := target }, .proceed, a.requests⟩
  | await {a : Action} {wait : Wait} {resumeAt : Nat} (hslot : p.fetch s.pc = .action a)
      (hflow : flowOf p settings s a = .await wait resumeAt) :
      Stepped p settings s
        ⟨{ perform settings s a with pc := resumeAt, status := .awaiting wait }, .awaiting,
          a.requests⟩
  | finish {a : Action} {reason : FinishReason} (hslot : p.fetch s.pc = .action a)
      (hflow : flowOf p settings s a = .finish reason) :
      Stepped p settings s
        ⟨{ perform settings s a with status := .finished reason }, .finished, a.requests⟩
  | abort {a : Action} {cause : Abort} (hslot : p.fetch s.pc = .action a)
      (hflow : flowOf p settings s a = .abort cause) :
      Stepped p settings s
        ⟨{ perform settings s a with status := .aborted cause }, .aborted cause, a.requests⟩

theorem step_of_active {p : Program} {settings : Settings} {s : State} (hs : Active s) :
    step p settings s = (executeAt p settings { s with status := .running }).settle := by
  rw [step, restingOutcome?_eq_none.2 hs]

theorem step_of_end {p : Program} {settings : Settings} {s : State} (hs : Active s)
    (hslot : p.fetch s.pc = .endOfProgram) :
    step p settings s = ⟨{ s with status := .finished .endOfScript }, .finished, []⟩ := by
  rw [step_of_active hs, executeAt]
  simp only [hslot]
  rfl

theorem step_of_malformed {p : Program} {settings : Settings} {s : State} {tag reason : String}
    (hs : Active s) (hslot : p.fetch s.pc = .malformed tag reason) :
    step p settings s =
      ⟨{ s with status := .aborted (.malformedAction s.pc tag reason) },
        .aborted (.malformedAction s.pc tag reason), []⟩ := by
  rw [step_of_active hs, executeAt]
  simp only [hslot]
  rfl

/-- A step of an active state at an action: it is performed, and execution goes where it leads. -/
theorem step_of_action {p : Program} {settings : Settings} {s : State} {a : Action}
    (hs : Active s) (hslot : p.fetch s.pc = .action a) :
    step p settings s =
      (⟨perform settings s a, a.requests, flowOf p settings s a⟩ : Execution).settle := by
  -- A step sets the status before it executes the action, and no action reads it.
  have hflow : flowOf p settings { s with status := .running } a = flowOf p settings s a := by
    cases a <;> rfl
  rw [step_of_active hs, executeAt]
  simp only [hslot]
  rw [execute_eq, hflow]
  rfl

/-- A step of an active state is one of the cases. -/
theorem step_cases (p : Program) (settings : Settings) {s : State} (hs : Active s) :
    Stepped p settings s (step p settings s) := by
  cases hslot : p.fetch s.pc with
  | endOfProgram =>
      rw [step_of_end hs hslot]
      exact .ended hslot
  | malformed tag reason =>
      rw [step_of_malformed hs hslot]
      exact .malformed hslot
  | action a =>
      rw [step_of_action hs hslot]
      cases hflow : flowOf p settings s a with
      | next => exact .next hslot hflow
      | goto target => exact .goto hslot hflow
      | await wait resumeAt => exact .await hslot hflow
      | finish reason => exact .finish hslot hflow
      | abort cause => exact .abort hslot hflow

/-- A step that goes on leaves a running state. -/
theorem step_running {p : Program} {settings : Settings} {s : State} (hs : Active s)
    (hproceed : (step p settings s).outcome = .proceed) :
    (step p settings s).state.status = .running := by
  have hstep := step_cases p settings hs
  generalize step p settings s = t at hstep hproceed ⊢
  cases hstep with
  | next | goto => rfl
  | _ => cases hproceed

theorem step_active {p : Program} {settings : Settings} {s : State} (hs : Active s)
    (hproceed : (step p settings s).outcome = .proceed) : Active (step p settings s).state :=
  .inr (step_running hs hproceed)

/-- Only an action that waits for a choice changes the choices on screen. -/
theorem perform_choices {p : Program} {settings : Settings} {s : State} {a : Action}
    (hflow : flowOf p settings s a ≠ .await .choice s.pc) :
    (perform settings s a).screen.choices = s.screen.choices := by
  have hnone : a.offers s.isDay = [] := by
    by_cases h : a.offers s.isDay = []
    · exact h
    · exact absurd (flowOf_of_offers h) hflow
  show (a.paint s.isDay s.screen).choices = s.screen.choices
  rw [paint_choices, if_pos hnone]

end Parley.Engine
