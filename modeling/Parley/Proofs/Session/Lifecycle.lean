/-
  Parley.Proofs.Session.Lifecycle

  The life of a session. Between calls its status, its position and the choices on screen fit
  together (`Lifecycle`): it is never caught running; if it waits for a choice, the slot at its
  position presents just the choices on screen; if it waits for the player to go on, the slot
  before its position is a line; and choices are on screen only while it waits for one, or when
  answering them ended it. `lifecycle_after` says so of every history, and that every output
  agrees with the status it leaves.

  While a run goes on no choices are on screen. A step keeps that until it stops the run, and
  each way of stopping establishes the invariant.
-/
import Parley.Proofs.Session.History

namespace Parley

variable {H : Type} [Host H]

/-- Whether an outcome says of a session what its status says. That there is more to execute
    is never said of a session at rest. -/
def Outcome.Reports : Outcome → Status → Prop
  | .awaiting, .awaiting _ => True
  | .finished, .finished _ => True
  | .aborted cause, .aborted cause' => cause = cause'
  | _, _ => False

/-- The outcome that says of a session that it has ended. -/
theorem Outcome.Reports.ended {outcome : Outcome} {status : Status} (h : outcome.Reports status)
    (hended : status.isTerminal = true) :
    outcome = .finished ∨ ∃ cause, outcome = .aborted cause := by
  cases status with
  | idle | running | awaiting => cases hended
  | finished reason =>
      cases outcome with
      | finished => exact .inl rfl
      | proceed | awaiting | aborted => exact h.elim
  | aborted cause =>
      cases outcome with
      | aborted cause' => exact .inr ⟨cause', rfl⟩
      | proceed | awaiting | finished => exact h.elim

namespace Engine

/-- How status, position and choices fit together between calls. -/
structure Lifecycle (p : Program) (settings : Settings) (s : State) : Prop where
  notRunning : s.status ≠ .running
  choosing : s.status = .awaiting .choice →
    s.screen.choices ≠ [] ∧
      (p.fetch s.pc = .action (.choice s.screen.choices) ∨
        p.fetch s.pc = .action (.nightChoice s.screen.choices))
  paused : s.status = .awaiting .advance →
    settings.pauseOnLine = true ∧ 1 ≤ s.pc ∧
      (∃ speaker content voice, p.fetch (s.pc - 1) = .action (.line speaker content voice)) ∧
      s.screen.choices = []
  published : s.screen.choices ≠ [] →
    s.status = .awaiting .choice ∨
      ∃ o ∈ s.screen.choices, s.status = .aborted (.unresolvedLabel o.label s.pc)

/-! ### Runs -/

theorem step_reports {p : Program} {settings : Settings} {s : State} (hs : Active s)
    (hproceed : (step p settings s).outcome ≠ .proceed) :
    (step p settings s).outcome.Reports (step p settings s).state.status := by
  have hstep := step_cases p settings hs
  generalize step p settings s = t at hstep hproceed ⊢
  cases hstep with
  | next | goto => exact absurd rfl hproceed
  | ended | await | finish => exact trivial
  | malformed | abort => exact rfl

/-- A run returns an outcome that agrees with the status of the state it returns. -/
theorem run_reports (p : Program) (settings : Settings) {s : State} (hs : Active s) :
    (run p settings s).2.outcome.Reports (run p settings s).1.status :=
  run_induction Active (fun s outcome => outcome.Reports s.status) (fun _ => step_active)
    (fun _ => step_reports) (fun _ _ _ => rfl) hs hs

/-- The states that a run goes through: choices stay off the screen until it stops. -/
def Unanswered (s : State) : Prop := Active s ∧ s.screen.choices = []

theorem step_unanswered {p : Program} {settings : Settings} {s : State} (hs : Unanswered s)
    (hproceed : (step p settings s).outcome = .proceed) :
    Unanswered (step p settings s).state := by
  refine ⟨step_active hs.1 hproceed, ?_⟩
  have hstep := step_cases p settings hs.1
  generalize step p settings s = t at hstep hproceed ⊢
  cases hstep with
  -- An action that presents choices waits for them, so one that goes on presented none.
  | next hslot hflow => exact (perform_choices (by rw [hflow]; nofun)).trans hs.2
  | goto hslot hflow => exact (perform_choices (by rw [hflow]; nofun)).trans hs.2
  | _ => cases hproceed

/-- A state that has ended without choices on screen. -/
theorem lifecycle_of_ended {p : Program} {settings : Settings} {s : State}
    (hended : s.status.isTerminal = true) (hchoices : s.screen.choices = []) :
    Lifecycle p settings s where
  notRunning h := by simp [h, Status.isTerminal] at hended
  choosing h := by simp [h, Status.isTerminal] at hended
  paused h := by simp [h, Status.isTerminal] at hended
  published h := absurd hchoices h

/-- Waiting establishes the invariant: for a choice by the choices that were presented, for the
    player to go on by the line before the new position. -/
theorem lifecycle_of_await {p : Program} {settings : Settings} {s : State} {a : Action}
    {wait : Wait} {resumeAt : Nat} (hchoices : s.screen.choices = [])
    (hslot : p.fetch s.pc = .action a) (hflow : flowOf p settings s a = .await wait resumeAt) :
    Lifecycle p settings
      { perform settings s a with pc := resumeAt, status := .awaiting wait } := by
  have hleads := leads_flowOf p settings s a
  rw [hflow] at hleads
  cases hleads with
  | pause hpause =>
      -- The new position is the one after the line, so the line stands right before it.
      have hnone := (perform_choices (by rw [hflow]; nofun)).trans hchoices
      exact {
        notRunning := nofun
        choosing := nofun
        paused := fun _ => ⟨hpause, by simp, ⟨_, _, _, by simpa using hslot⟩, hnone⟩
        published := fun h => absurd hnone h }
  | present hoffers =>
      -- The position stays at the action, and what it presents is what the screen now shows.
      have hpresented : (perform settings s a).screen.choices = a.offers s.isDay := by
        show (a.paint s.isDay s.screen).choices = a.offers s.isDay
        rw [paint_choices, if_neg hoffers]
      have hchoosing : (perform settings s a).screen.choices ≠ [] ∧
          (p.fetch s.pc = .action (.choice (perform settings s a).screen.choices) ∨
            p.fetch s.pc = .action (.nightChoice (perform settings s a).screen.choices)) := by
        rw [hpresented, hslot]
        refine ⟨hoffers, ?_⟩
        rcases offers_eq hoffers with ha | ha
        · exact .inl (congrArg Fetch.action ha)
        · exact .inr (congrArg Fetch.action ha)
      exact {
        notRunning := nofun
        choosing := fun _ => hchoosing
        paused := nofun
        published := fun _ => .inl rfl }

theorem step_lifecycle {p : Program} {settings : Settings} {s : State} (hs : Unanswered s)
    (hproceed : (step p settings s).outcome ≠ .proceed) :
    Lifecycle p settings (step p settings s).state := by
  have hstep := step_cases p settings hs.1
  generalize step p settings s = t at hstep hproceed ⊢
  cases hstep with
  | next | goto => exact absurd rfl hproceed
  | ended => exact lifecycle_of_ended rfl hs.2
  | malformed => exact lifecycle_of_ended rfl hs.2
  | await hslot hflow => exact lifecycle_of_await hs.2 hslot hflow
  | finish hslot hflow =>
      exact lifecycle_of_ended rfl ((perform_choices (by rw [hflow]; nofun)).trans hs.2)
  | abort hslot hflow =>
      exact lifecycle_of_ended rfl ((perform_choices (by rw [hflow]; nofun)).trans hs.2)

theorem run_lifecycle {p : Program} {settings : Settings} {s : State} (hs : Unanswered s) :
    Lifecycle p settings (run p settings s).1 :=
  run_induction Unanswered (fun s _ => Lifecycle p settings s) (fun _ => step_unanswered)
    (fun _ => step_lifecycle) (fun _ _ h => lifecycle_of_ended rfl h.2) hs.1 hs

/-! ### Calls -/

theorem Lifecycle.choices_of_active {p : Program} {settings : Settings} {s : State}
    (h : Lifecycle p settings s) (hactive : Active s) : s.screen.choices = [] := by
  by_cases hchoices : s.screen.choices = []
  · exact hchoices
  · rcases h.published hchoices with hstatus | ⟨o, -, hstatus⟩ <;>
      rcases hactive with hactive | hactive <;> rw [hstatus] at hactive <;> cases hactive

/-- An input clears the choices it answers, so what is resumed runs with none on screen. -/
theorem Lifecycle.unanswered {p : Program} {settings : Settings} {s r : State}
    (h : Lifecycle p settings s) (hresumed : Resumed p s r) : Unanswered r := by
  refine ⟨hresumed.active, ?_⟩
  cases hresumed with
  | start hactive => exact h.choices_of_active hactive
  | choose => rfl
  | advance hstatus => exact (h.paused hstatus).2.2.2

theorem Lifecycle.moved {p : Program} {settings : Settings} {s s' : State} {output : Option Output}
    (h : Lifecycle p settings s) (hmoved : Moved p settings s s' output) :
    Lifecycle p settings s' := by
  cases hmoved with
  | same | wait => exact h
  | day isDay => exact ⟨h.notRunning, h.choosing, h.paused, h.published⟩
  | stop => exact lifecycle_of_ended rfl rfl
  | lose hstatus hlabel =>
      -- The one way to end with choices still on screen: the answer led nowhere.
      obtain ⟨o, ho, rfl⟩ := hlabel
      exact {
        notRunning := nofun
        choosing := nofun
        paused := nofun
        published := fun _ => .inr ⟨o, ho, rfl⟩ }
  | run hresumed => exact run_lifecycle (h.unanswered hresumed)

/-- The output of a call agrees with the status after it. -/
theorem Moved.reports {p : Program} {settings : Settings} {s s' : State} {output : Output}
    (hmoved : Moved p settings s s' (some output)) : output.outcome.Reports s'.status := by
  cases hmoved with
  | wait hstatus => rw [hstatus]; exact trivial
  | run hresumed => exact run_reports p settings hresumed.active

theorem run_ne_idle (p : Program) (settings : Settings) {s : State} (hs : Active s) :
    (run p settings s).1.status ≠ .idle := by
  intro hidle
  have hreports := run_reports p settings hs
  rw [hidle] at hreports
  cases houtcome : (run p settings s).2.outcome <;> rw [houtcome] at hreports <;> exact hreports

/-- No call leads back to the idle state. -/
theorem Moved.idle {p : Program} {settings : Settings} {s s' : State} {output : Option Output}
    (hmoved : Moved p settings s s' output) (hidle : s'.status = .idle) : s.status = .idle := by
  cases hmoved with
  | same | wait | day => exact hidle
  | stop | lose => cases hidle
  | run hresumed => exact absurd hidle (run_ne_idle p settings hresumed.active)

end Engine

namespace Session

open Engine

theorem call_idle {s : Session H} {c : Call} (hidle : (s.call c).1.state.status = .idle) :
    s.state.status = .idle ∧ c ≠ .start ∧ c ≠ .stop := by
  have hbefore := (call_moved s c).idle hidle
  refine ⟨hbefore, ?_, ?_⟩
  · rintro rfl
    have hresumed : Resumed s.program s.state { s.state with status := .running } :=
      .start (.inl hbefore)
    rw [call, start_of_active (.inl hbefore)] at hidle
    exact run_ne_idle s.program s.settings hresumed.active hidle
  · rintro rfl
    rw [call, stop_of_open (by rw [hbefore]; rfl)] at hidle
    cases hidle

/-- A session is idle only before it is started or stopped. -/
theorem after_idle {s : Session H} {calls : List Call}
    (hidle : (s.after calls).state.status = .idle) :
    s.state.status = .idle ∧ .start ∉ calls ∧ .stop ∉ calls := by
  -- Backwards from the end: what is idle after a call was idle before it.
  induction calls generalizing s with
  | nil => exact ⟨hidle, by simp, by simp⟩
  | cons c calls ih =>
      obtain ⟨hcall, hnostart, hnostop⟩ := ih hidle
      obtain ⟨hbefore, hstart, hstop⟩ := call_idle hcall
      exact ⟨hbefore, by simp [hstart.symm, hnostart], by simp [hstop.symm, hnostop]⟩

omit [Host H] in
theorem ofBook_lifecycle (program : Program) (identity : Identity) (host : H) (book : Book)
    (settings : Settings) (entropy : UInt64) :
    Lifecycle program settings (ofBook program identity host book settings entropy).state where
  notRunning := nofun
  choosing := nofun
  paused := nofun
  published h := absurd rfl h

/-- After every history from a book, status, position and choices fit together, the session is
    idle only if it was neither started nor stopped, and the output of the next call, if it has
    one, agrees with the status after that call. -/
theorem lifecycle_after (program : Program) (identity : Identity) (host : H) (book : Book)
    (settings : Settings) (entropy : UInt64) (calls : List Call) :
    let s := (ofBook program identity host book settings entropy).after calls
    Lifecycle program settings s.state ∧
      (s.state.status = .idle → .start ∉ calls ∧ .stop ∉ calls) ∧
      ∀ (c : Call) (output : Output), (s.call c).2 = .ran (.ok output) →
        output.outcome.Reports (s.call c).1.state.status := by
  intro s
  refine ⟨?_, fun hidle => (after_idle hidle).2, ?_⟩
  · exact after_induction (fun _ _ _ h hmoved => h.moved hmoved)
      (ofBook_lifecycle program identity host book settings entropy) calls
  · intro c output houtput
    have hmoved := call_moved s c
    rw [houtput] at hmoved
    exact hmoved.reports

end Session

end Parley
