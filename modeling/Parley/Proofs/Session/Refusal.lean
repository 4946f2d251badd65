/-
  Parley.Proofs.Session.Refusal

  Inputs that a session refuses. A choice is answered in one of four ways (`Chosen`), going on
  and starting in two each, and the status, the pending choices and the labels of the program
  decide which. `answers_inputs` says when each refusal is given and what it leaves behind: the
  session as it was, but for one thing. A refusal to a session that has ended makes its progress
  due again, also if it was saved (`refused`, and `due_after_refused_choice` for the smallest
  such history).

  A session that has ended is frozen: whatever is asked of it, only the time of day changes.
-/
import Parley.Proofs.Program.Labels
import Parley.Proofs.Session.History

namespace Parley

variable {H : Type} [Host H]

namespace Session

open Engine

/-! ### Answers -/

/-- Whether the label is one of the pending choices. -/
def Offers (s : Session H) (label : String) : Prop :=
  ∃ o ∈ s.state.screen.choices, o.label = label

/-- What an input at the wrong time leaves of a session: if the session has ended, its progress
    is due, and nothing else is changed. -/
def refused (s : Session H) : Session H := { s with due := s.due || s.state.status.isTerminal }

/-- The ways to answer a choice. -/
inductive Chosen (s : Session H) (label : String) :
    Session H × Except InputError Output → Prop where
  | early (hstatus : s.state.status ≠ .awaiting .choice) :
      Chosen s label (s.refused, .error .notAwaitingChoice)
  | unknown (hstatus : s.state.status = .awaiting .choice) (hlabel : ¬ s.Offers label) :
      Chosen s label (s, .error (.unknownChoice label))
  | lost (hstatus : s.state.status = .awaiting .choice) (hlabel : s.Offers label)
      (hresolve : s.program.resolve label = none) :
      Chosen s label
        ({ s with
            state := { s.state with status := .aborted (.unresolvedLabel label s.state.pc) }
            due := true },
          .error (.aborted (.unresolvedLabel label s.state.pc)))
  | found {position : Nat} (hstatus : s.state.status = .awaiting .choice)
      (hlabel : s.Offers label) (hresolve : s.program.resolve label = some position) :
      Chosen s label (s.runFrom
        { s.state with
          pc := position + 1, status := .running, screen := { s.state.screen with choices := [] } })

theorem choose_chosen (s : Session H) (label : String) : Chosen s label (s.choose label) := by
  by_cases hstatus : s.state.status = .awaiting .choice
  · by_cases hlabel : s.Offers label
    · cases hresolve : s.program.resolve label with
      | none =>
          rw [choose_of_lost hstatus hlabel (Program.target_eq_none_iff.2 hresolve)]
          exact .lost hstatus hlabel hresolve
      | some position =>
          rw [choose_of_found hstatus hlabel (Program.target_of_resolve hresolve)]
          exact .found hstatus hlabel hresolve
    · rw [choose_of_unknown hstatus hlabel]
      exact .unknown hstatus hlabel
  · rw [choose_of_not_awaiting label hstatus]
    exact .early hstatus

theorem choose_early_iff {s : Session H} {label : String} :
    (s.choose label).2 = .error .notAwaitingChoice ↔ s.state.status ≠ .awaiting .choice := by
  have hchosen := choose_chosen s label
  generalize s.choose label = answer at hchosen ⊢
  cases hchosen with
  | early hstatus => exact iff_of_true rfl hstatus
  | unknown hstatus | lost hstatus | found hstatus =>
      exact iff_of_false nofun (fun h => h hstatus)

theorem choose_unknown_iff {s : Session H} {label : String} :
    (s.choose label).2 = .error (.unknownChoice label) ↔
      s.state.status = .awaiting .choice ∧ ¬ s.Offers label := by
  have hchosen := choose_chosen s label
  generalize s.choose label = answer at hchosen ⊢
  cases hchosen with
  | early hstatus => exact iff_of_false nofun (fun h => hstatus h.1)
  | unknown hstatus hlabel => exact iff_of_true rfl ⟨hstatus, hlabel⟩
  | lost hstatus hlabel | found hstatus hlabel =>
      exact iff_of_false nofun (fun h => h.2 hlabel)

theorem choose_lost_iff {s : Session H} {label : String} :
    (s.choose label).2 = .error (.aborted (.unresolvedLabel label s.state.pc)) ↔
      s.state.status = .awaiting .choice ∧ s.Offers label ∧ s.program.resolve label = none := by
  have hchosen := choose_chosen s label
  generalize s.choose label = answer at hchosen ⊢
  cases hchosen with
  | early hstatus => exact iff_of_false nofun (fun h => hstatus h.1)
  | unknown hstatus hlabel => exact iff_of_false nofun (fun h => hlabel h.2.1)
  | lost hstatus hlabel hresolve => exact iff_of_true rfl ⟨hstatus, hlabel, hresolve⟩
  | found hstatus hlabel hresolve =>
      refine iff_of_false nofun ?_
      rintro ⟨-, -, hnone⟩
      rw [hresolve] at hnone
      cases hnone

theorem advance_early_iff {s : Session H} :
    s.advance.2 = .error .notAwaitingAdvance ↔ s.state.status ≠ .awaiting .advance := by
  by_cases hstatus : s.state.status = .awaiting .advance
  · rw [advance_of_awaiting hstatus]
    exact iff_of_false nofun (fun h => h hstatus)
  · rw [advance_of_not_awaiting hstatus]
    exact iff_of_true rfl hstatus

theorem start_late_iff {s : Session H} :
    s.start.2 = .error .alreadyEnded ↔ s.state.status.isTerminal = true := by
  cases hended : s.state.status.isTerminal with
  | true =>
      rw [start_of_ended hended]
      exact iff_of_true rfl rfl
  | false =>
      have hstart : ∃ output, s.start.2 = .ok output := by
        simp only [start, hended]
        exact ⟨_, rfl⟩
      obtain ⟨output, hstart⟩ := hstart
      rw [hstart]
      refine iff_of_false ?_ Bool.false_ne_true
      intro h
      cases h

/-! ### Sessions that have ended -/

/-- Nothing but the time of day, and what is due, has changed. -/
structure Frozen (s t : Session H) : Prop where
  state : ∃ isDay, t.state = { s.state with isDay }
  host : t.host = s.host

theorem call_frozen {s : Session H} (hended : s.state.status.isTerminal = true) (c : Call) :
    Frozen s (s.call c).1 := by
  have hsame : s.state = { s.state with isDay := s.state.isDay } := rfl
  have hnot {wait : Wait} : s.state.status ≠ .awaiting wait := by
    intro h
    rw [h] at hended
    cases hended
  cases c with
  | start =>
      rw [call, start_of_ended hended]
      exact ⟨⟨_, hsame⟩, rfl⟩
  | choose label =>
      rw [call, choose_of_not_awaiting label hnot]
      exact ⟨⟨_, hsame⟩, rfl⟩
  | advance =>
      rw [call, advance_of_not_awaiting hnot]
      exact ⟨⟨_, hsame⟩, rfl⟩
  | stop =>
      rw [call, stop_of_ended hended]
      exact ⟨⟨_, hsame⟩, rfl⟩
  | setDay isDay => exact ⟨⟨isDay, rfl⟩, rfl⟩
  | takePending =>
      simp only [call, takePending]
      cases s.pending <;> exact ⟨⟨_, hsame⟩, rfl⟩
  | saved => exact ⟨⟨_, hsame⟩, rfl⟩

/-- No history changes a session that has ended. -/
theorem after_frozen {s : Session H} (hended : s.state.status.isTerminal = true)
    (calls : List Call) : Frozen s (s.after calls) := by
  induction calls generalizing s with
  | nil => exact ⟨⟨s.state.isDay, rfl⟩, rfl⟩
  | cons c calls ih =>
      obtain ⟨⟨day, hcall⟩, hhost⟩ := call_frozen hended c
      have hstill : (s.call c).1.state.status.isTerminal = true := by
        rw [hcall]
        exact hended
      obtain ⟨⟨day', hrest⟩, hhost'⟩ := ih hstill
      refine ⟨⟨day', ?_⟩, hhost'.trans hhost⟩
      show ((s.call c).1.after calls).state = _
      rw [hrest, hcall]

/-! ### Refusals -/

/-- When each input is refused, and what a refusal leaves behind. -/
structure AnswersInputs (s : Session H) : Prop where
  choiceEarly (label : String) :
    (s.choose label).2 = .error .notAwaitingChoice ↔ s.state.status ≠ .awaiting .choice
  choiceUnknown (label : String) :
    (s.choose label).2 = .error (.unknownChoice label) ↔
      s.state.status = .awaiting .choice ∧ ¬ s.Offers label
  choiceLost (label : String) :
    (s.choose label).2 = .error (.aborted (.unresolvedLabel label s.state.pc)) ↔
      s.state.status = .awaiting .choice ∧ s.Offers label ∧ s.program.resolve label = none
  choiceFound (label : String) (position : Nat) :
    s.state.status = .awaiting .choice → s.Offers label →
      s.program.resolve label = some position →
      s.choose label = s.runFrom
        { s.state with
          pc := position + 1, status := .running, screen := { s.state.screen with choices := [] } }
  advanceEarly : s.advance.2 = .error .notAwaitingAdvance ↔ s.state.status ≠ .awaiting .advance
  startLate : s.start.2 = .error .alreadyEnded ↔ s.state.status.isTerminal = true
  afterChoiceEarly (label : String) :
    (s.choose label).2 = .error .notAwaitingChoice → (s.choose label).1 = s.refused
  afterChoiceUnknown (label : String) :
    (s.choose label).2 = .error (.unknownChoice label) → (s.choose label).1 = s
  afterChoiceLost (label : String) (cause : Abort) :
    (s.choose label).2 = .error (.aborted cause) →
      (s.choose label).1 =
        { s with state := { s.state with status := .aborted cause }, due := true }
  afterAdvanceEarly : s.advance.2 = .error .notAwaitingAdvance → s.advance.1 = s.refused
  afterStartLate : s.start.2 = .error .alreadyEnded → s.start.1 = s
  frozen : s.state.status.isTerminal = true → ∀ calls, Frozen s (s.after calls)

/-- Every input that does not fit is refused, for the first reason in order, and a refusal leaves
    the session as it was, except that the progress of a session that has ended becomes due. An
    answer that leads nowhere ends the session and changes nothing else. A session that has
    ended stays as it is in every later history. -/
theorem answers_inputs (s : Session H) : s.AnswersInputs where
  choiceEarly _ := choose_early_iff
  choiceUnknown _ := choose_unknown_iff
  choiceLost _ := choose_lost_iff
  choiceFound _ _ hstatus hlabel hresolve :=
    choose_of_found hstatus hlabel (Program.target_of_resolve hresolve)
  advanceEarly := advance_early_iff
  startLate := start_late_iff
  afterChoiceEarly label h := by
    rw [choose_of_not_awaiting label (choose_early_iff.1 h), refused]
  afterChoiceUnknown label h := by
    obtain ⟨hstatus, hlabel⟩ := choose_unknown_iff.1 h
    rw [choose_of_unknown hstatus hlabel]
  afterChoiceLost label cause h := by
    have hchosen := choose_chosen s label
    generalize s.choose label = answer at hchosen h ⊢
    cases hchosen with
    | lost =>
        cases h
        rfl
    | early | unknown | found => cases h
  afterAdvanceEarly h := by
    rw [advance_of_not_awaiting (advance_early_iff.1 h), refused]
  afterStartLate h := by
    rw [start_of_ended (start_late_iff.1 h)]
  frozen := after_frozen

/-- A choice after the end is refused, and makes the progress due that was saved already. -/
theorem due_after_refused_choice :
    let program := Program.ofActions [.finish]
    let identity : Identity := ⟨⟨"villager", "Mira"⟩, "player", true⟩
    let s := (ofBook program identity SilentHost.silent {} {} 0).after [.start, .saved]
    (s.choose "bye").2 = .error .notAwaitingChoice ∧ s.due = false ∧
      (s.choose "bye").1.due = true :=
  ⟨rfl, rfl, rfl⟩

end Session

end Parley
