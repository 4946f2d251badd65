/-
  Parley.Proofs.Session.History

  Histories of a session: calls in any order, with any arguments. `call` is one of them with its
  reply, `after` the session after a list of them. On the state, a call is one of the cases of
  `Moved`: it leaves the state alone, or sets the time of day, or ends the session, or runs on
  from a state that took up an input (`Resumed`). A property that every such move preserves
  holds after every history.
-/
import Parley.Proofs.Engine.Run
import Parley.Session

namespace Parley

variable {H : Type} [Host H]

/-- What a caller can ask of a session. -/
inductive Call where
  | start
  | choose (label : String)
  | advance
  | stop
  | setDay (isDay : Bool)
  | takePending
  | saved
deriving DecidableEq, Repr

/-- What a call returns. -/
inductive Reply where
  | ran (result : Except InputError Output)
  | progress (record : Option Record)
  | done

/-- The output that a reply carries. -/
def Reply.output? : Reply → Option Output
  | .ran (.ok output) => some output
  | _ => none

namespace Session

/-- One call. -/
def call (s : Session H) : Call → Session H × Reply
  | .start => (s.start.1, .ran s.start.2)
  | .choose label => ((s.choose label).1, .ran (s.choose label).2)
  | .advance => (s.advance.1, .ran s.advance.2)
  | .stop => (s.stop, .done)
  | .setDay isDay => (s.setDay isDay, .done)
  | .takePending => (s.takePending.1, .progress s.takePending.2)
  | .saved => (s.saved, .done)

/-- The session after some calls. -/
def after (s : Session H) (calls : List Call) : Session H := calls.foldl (fun s c => (s.call c).1) s

end Session

namespace Engine

/-! ### What a call does to the state -/

/-- The active states in which a suspended state takes up an input. -/
inductive Resumed (p : Program) (s : State) : State → Prop where
  | start (hactive : Active s) : Resumed p s { s with status := .running }
  | choose {label : String} {target : Nat} (hstatus : s.status = .awaiting .choice)
      (hlabel : ∃ o ∈ s.screen.choices, o.label = label) (htarget : p.target label = some target) :
      Resumed p s
        { s with pc := target, status := .running, screen := { s.screen with choices := [] } }
  | advance (hstatus : s.status = .awaiting .advance) : Resumed p s { s with status := .running }

theorem Resumed.active {p : Program} {s r : State} (h : Resumed p s r) : Active r := by
  cases h <;> exact .inr rfl

/-- An input changes nothing but position, status and pending choices. -/
theorem resume_changes (p : Program) (s : State) (input : Input) :
    ∃ pc status choices,
      (resume p s input).1 = { s with pc, status, screen := { s.screen with choices } } := by
  cases input with
  | choose label =>
      simp only [resume, choose]
      split
      · exact ⟨s.pc, s.status, s.screen.choices, rfl⟩
      · split
        · exact ⟨s.pc, s.status, s.screen.choices, rfl⟩
        · split
          · exact ⟨s.pc, _, s.screen.choices, rfl⟩
          · exact ⟨_, .running, [], rfl⟩
  | advance =>
      simp only [resume, advance]
      split
      · exact ⟨s.pc, s.status, s.screen.choices, rfl⟩
      · exact ⟨s.pc, .running, s.screen.choices, rfl⟩
  | stop =>
      simp only [resume, stop]
      split
      · exact ⟨s.pc, s.status, s.screen.choices, rfl⟩
      · exact ⟨s.pc, _, [], rfl⟩

/-- The state after a call, and the output of the call if it has one. -/
inductive Moved (p : Program) (settings : Settings) (s : State) : State → Option Output → Prop where
  | same : Moved p settings s s none
  | day (isDay : Bool) : Moved p settings s { s with isDay } none
  | stop (hstatus : s.status.isTerminal = false) :
      Moved p settings s
        { s with screen := { s.screen with choices := [] }, status := .finished .stopped } none
  | lose {label : String} (hstatus : s.status = .awaiting .choice)
      (hlabel : ∃ o ∈ s.screen.choices, o.label = label) (htarget : p.target label = none) :
      Moved p settings s { s with status := .aborted (.unresolvedLabel label s.pc) } none
  | wait {wait : Wait} (hstatus : s.status = .awaiting wait) :
      Moved p settings s s (some ⟨.awaiting, [], 0⟩)
  | run {r : State} (hresumed : Resumed p s r) :
      Moved p settings s (Engine.run p settings r).1 (some (Engine.run p settings r).2)

end Engine

namespace Session

open Engine

/-- Runs on from the given state. -/
def runFrom (s : Session H) (r : State) : Session H × Except InputError Output :=
  ((run { s with state := r }).1, .ok (run { s with state := r }).2)

/-! ### Starting -/

theorem start_of_active {s : Session H} (h : Active s.state) :
    s.start = s.runFrom { s.state with status := .running } := by
  rcases h with h | h <;> simp [start, runFrom, h, Status.isTerminal]

theorem start_of_awaiting {s : Session H} {wait : Wait} (h : s.state.status = .awaiting wait) :
    s.start = (s, .ok ⟨.awaiting, [], 0⟩) := by
  -- The run of a state that waits returns at once: no effects, nothing due.
  have hrun : run s = (s, ⟨.awaiting, [], 0⟩) := by
    simp [run, Engine.run, h, restingOutcome?, Host.applyAll, Output.reachedCheckpoint]
  have hsame : { s with state := { s.state with status := .awaiting wait } } = s := by
    rw [← h]
  simp [start, h, Status.isTerminal, hsame, hrun]

theorem start_of_ended {s : Session H} (h : s.state.status.isTerminal = true) :
    s.start = (s, .error .alreadyEnded) := by
  simp [start, h]

/-! ### Choosing -/

theorem choose_of_not_awaiting {s : Session H} (label : String)
    (h : s.state.status ≠ .awaiting .choice) :
    s.choose label =
      ({ s with due := s.due || s.state.status.isTerminal }, .error .notAwaitingChoice) := by
  simp [choose, submit, Engine.resume, Engine.choose, h]

theorem choose_of_unknown {s : Session H} {label : String}
    (h : s.state.status = .awaiting .choice)
    (hlabel : ¬ ∃ o ∈ s.state.screen.choices, o.label = label) :
    s.choose label = (s, .error (.unknownChoice label)) := by
  have hany : s.state.screen.choices.any (·.label == label) = false := by
    simpa using hlabel
  simp [choose, submit, Engine.resume, Engine.choose, h, hany, Status.isTerminal]

theorem choose_of_lost {s : Session H} {label : String} (h : s.state.status = .awaiting .choice)
    (hlabel : ∃ o ∈ s.state.screen.choices, o.label = label)
    (htarget : s.program.target label = none) :
    s.choose label =
      ({ s with
          state := { s.state with status := .aborted (.unresolvedLabel label s.state.pc) }
          due := true },
        .error (.aborted (.unresolvedLabel label s.state.pc))) := by
  have hany : s.state.screen.choices.any (·.label == label) = true := by
    simpa using hlabel
  simp [choose, submit, Engine.resume, Engine.choose, h, hany, htarget, Status.isTerminal]

theorem choose_of_found {s : Session H} {label : String} {target : Nat}
    (h : s.state.status = .awaiting .choice)
    (hlabel : ∃ o ∈ s.state.screen.choices, o.label = label)
    (htarget : s.program.target label = some target) :
    s.choose label = s.runFrom
      { s.state with
        pc := target, status := .running, screen := { s.state.screen with choices := [] } } := by
  have hany : s.state.screen.choices.any (·.label == label) = true := by
    simpa using hlabel
  simp [choose, submit, Engine.resume, Engine.choose, h, hany, htarget, runFrom]

/-! ### Going on and stopping -/

theorem advance_of_not_awaiting {s : Session H} (h : s.state.status ≠ .awaiting .advance) :
    s.advance =
      ({ s with due := s.due || s.state.status.isTerminal }, .error .notAwaitingAdvance) := by
  simp [advance, submit, Engine.resume, Engine.advance, h]

theorem advance_of_awaiting {s : Session H} (h : s.state.status = .awaiting .advance) :
    s.advance = s.runFrom { s.state with status := .running } := by
  simp [advance, submit, Engine.resume, Engine.advance, h, runFrom]

omit [Host H] in
theorem stop_of_ended {s : Session H} (h : s.state.status.isTerminal = true) : s.stop = s := by
  simp [stop, Engine.stop, h]

omit [Host H] in
theorem stop_of_open {s : Session H} (h : s.state.status.isTerminal = false) :
    s.stop = { s with
      state := { s.state with
        screen := { s.state.screen with choices := [] }, status := .finished .stopped }
      due := true } := by
  simp [stop, Engine.stop, h]

/-! ### All calls -/

/-- On the state, a call is one of the moves. -/
theorem call_moved (s : Session H) (c : Call) :
    Moved s.program s.settings s.state (s.call c).1.state (s.call c).2.output? := by
  cases c with
  | start =>
      cases hstatus : s.state.status with
      | idle =>
          rw [call, start_of_active (.inl hstatus)]
          exact .run (.start (.inl hstatus))
      | running =>
          rw [call, start_of_active (.inr hstatus)]
          exact .run (.start (.inr hstatus))
      | awaiting wait =>
          rw [call, start_of_awaiting hstatus]
          exact .wait hstatus
      | finished reason =>
          rw [call, start_of_ended (by rw [hstatus]; rfl)]
          exact .same
      | aborted cause =>
          rw [call, start_of_ended (by rw [hstatus]; rfl)]
          exact .same
  | choose label =>
      by_cases hstatus : s.state.status = .awaiting .choice
      · by_cases hlabel : ∃ o ∈ s.state.screen.choices, o.label = label
        · cases htarget : s.program.target label with
          | none =>
              rw [call, choose_of_lost hstatus hlabel htarget]
              exact .lose hstatus hlabel htarget
          | some target =>
              rw [call, choose_of_found hstatus hlabel htarget]
              exact .run (.choose hstatus hlabel htarget)
        · rw [call, choose_of_unknown hstatus hlabel]
          exact .same
      · rw [call, choose_of_not_awaiting label hstatus]
        exact .same
  | advance =>
      by_cases hstatus : s.state.status = .awaiting .advance
      · rw [call, advance_of_awaiting hstatus]
        exact .run (.advance hstatus)
      · rw [call, advance_of_not_awaiting hstatus]
        exact .same
  | stop =>
      cases hended : s.state.status.isTerminal with
      | true =>
          rw [call, stop_of_ended hended]
          exact .same
      | false =>
          rw [call, stop_of_open hended]
          exact .stop hended
  | setDay isDay => exact .day isDay
  | takePending =>
      simp only [call, takePending]
      cases s.pending <;> exact .same
  | saved => exact .same

theorem submit_fixed (s : Session H) (input : Input) :
    (s.submit input).1.program = s.program ∧ (s.submit input).1.settings = s.settings := by
  unfold submit
  split <;> exact ⟨rfl, rfl⟩

/-- No call changes the program or the settings. -/
theorem call_fixed (s : Session H) (c : Call) :
    (s.call c).1.program = s.program ∧ (s.call c).1.settings = s.settings := by
  cases c with
  | start =>
      simp only [call, start]
      split <;> exact ⟨rfl, rfl⟩
  | choose label => exact submit_fixed s (.choose label)
  | advance => exact submit_fixed s .advance
  | stop => exact ⟨rfl, rfl⟩
  | setDay isDay => exact ⟨rfl, rfl⟩
  | takePending =>
      simp only [call, takePending]
      cases s.pending <;> exact ⟨rfl, rfl⟩
  | saved => exact ⟨rfl, rfl⟩

theorem after_fixed (s : Session H) (calls : List Call) :
    (s.after calls).program = s.program ∧ (s.after calls).settings = s.settings := by
  induction calls generalizing s with
  | nil => exact ⟨rfl, rfl⟩
  | cons c calls ih =>
      obtain ⟨hprogram, hsettings⟩ := ih (s.call c).1
      exact ⟨hprogram.trans (call_fixed s c).1, hsettings.trans (call_fixed s c).2⟩

/-- What every move preserves holds after every history. -/
theorem after_induction {P : State → Prop} {s : Session H}
    (hmove : ∀ t t' output, P t → Moved s.program s.settings t t' output → P t')
    (hs : P s.state) (calls : List Call) : P (s.after calls).state := by
  induction calls generalizing s with
  | nil => exact hs
  | cons c calls ih =>
      -- The moves of the later calls are over the same program and settings.
      refine ih (s := (s.call c).1) ?_ (hmove _ _ _ hs (call_moved s c))
      rw [(call_fixed s c).1, (call_fixed s c).2]
      exact hmove

end Session

end Parley
