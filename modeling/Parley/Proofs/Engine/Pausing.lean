/-
  Parley.Proofs.Engine.Pausing

  Pausing after every line changes when a script waits, not what it does. A step that pauses
  differs from the step that does not in two ways only: it stops where the other goes on, and
  the state it leaves waits for the player (`step_pausing`). The player's answer undoes the
  second, so the next run goes on in the very state of the run that never paused, except that
  the one-shots of the last slice have ended by then; and no step reads those (`step_quiet`).

  `Pages` reads a script line by line: runs, each answered by going on, up to the first that
  does not end at a line. `pages_of_run` says that reading this way comes to the same as one
  run without pauses.
-/
import Parley.Proofs.Engine.Run

namespace Parley

/-- The state without the one-shots of its slice. -/
def State.quiet (s : State) : State := { s with screen := s.screen.clearOneShots }

/-- The same settings, with or without a pause after every line. -/
def Settings.pausing (settings : Settings) (pauseOnLine : Bool) : Settings :=
  { settings with pauseOnLine }

/-- The output of two runs, one after the other. -/
def Output.followedBy (first rest : Output) : Output :=
  ⟨rest.outcome, first.effects ++ rest.effects, first.steps + rest.steps⟩

/-- The steps of several runs, added up. -/
def Output.totalSteps : List Output → Nat
  | [] => 0
  | o :: os => o.steps + totalSteps os

namespace Engine

/-! ### One-shots are never read -/

/-- The transition without the one-shots of the state it leaves. -/
def Transition.quiet (t : Transition) : Transition := { t with state := t.state.quiet }

theorem quiet_eq_iff {s s' : State} :
    s.quiet = s'.quiet ↔
      s' = { s with screen := s'.screen } ∧
        s.screen.clearOneShots = s'.screen.clearOneShots := by
  constructor
  · intro h
    obtain ⟨pc, status, locals, globals, screen, isDay, seed⟩ := s
    obtain ⟨pc', status', locals', globals', screen', isDay', seed'⟩ := s'
    obtain ⟨rfl, rfl, rfl, rfl, hscreen, rfl, rfl⟩ := State.mk.inj h
    exact ⟨rfl, hscreen⟩
  · rintro ⟨hs', hscreen⟩
    rw [hs']
    simp only [State.quiet, hscreen]

theorem paint_clearOneShots (isDay : Bool) (a : Action) (x : Screen) :
    (a.paint isDay x.clearOneShots).clearOneShots = (a.paint isDay x).clearOneShots := by
  cases a with
  | choice options => cases options <;> rfl
  | nightChoice options => cases isDay <;> cases options <;> rfl
  | _ => rfl

/-- Moving on from states that differ in one-shots only keeps that so. -/
theorem settle_quiet {s s' : State} (h : s.quiet = s'.quiet) (effects : List Effect)
    (flow : Flow) :
    (⟨s, effects, flow⟩ : Execution).settle.quiet =
      (⟨s', effects, flow⟩ : Execution).settle.quiet := by
  obtain ⟨hs', hscreen⟩ := quiet_eq_iff.1 h
  rw [hs']
  cases flow <;> simp only [Execution.settle, Transition.quiet, State.quiet, hscreen]

/-- Steps of states that differ in one-shots only differ in one-shots only. -/
theorem step_quiet (p : Program) (settings : Settings) {s s' : State} (hs : Active s)
    (h : s.quiet = s'.quiet) :
    (step p settings s).quiet = (step p settings s').quiet := by
  obtain ⟨hs', hscreen⟩ := quiet_eq_iff.1 h
  generalize s'.screen = x at hs' hscreen
  subst hs'
  have hactive : Active { s with screen := x } := hs
  cases hslot : p.fetch s.pc with
  | endOfProgram =>
      rw [step_of_end hs hslot, step_of_end hactive hslot]
      simp only [Transition.quiet, State.quiet, hscreen]
  | malformed tag reason =>
      rw [step_of_malformed hs hslot, step_of_malformed hactive hslot]
      simp only [Transition.quiet, State.quiet, hscreen]
  | action a =>
      have hpaint : (a.paint s.isDay s.screen).clearOneShots =
          (a.paint s.isDay x).clearOneShots := by
        rw [← paint_clearOneShots s.isDay a s.screen, hscreen, paint_clearOneShots]
      rw [step_of_action hs hslot, step_of_action hactive hslot, flowOf_screen]
      exact settle_quiet (quiet_eq_iff.2 ⟨rfl, hpaint⟩) _ _

/-! ### A pause -/

/-- Only at a line does it matter whether the settings pause. -/
theorem flowOf_pausing {p : Program} {settings : Settings} {s : State} {a : Action}
    (hline : ∀ speaker content voice, a ≠ .line speaker content voice) (pauseOnLine : Bool) :
    flowOf p (settings.pausing pauseOnLine) s a = flowOf p settings s a := by
  cases a with
  | line speaker content voice => exact absurd rfl (hline speaker content voice)
  | _ => rfl

theorem perform_pausing (settings : Settings) (s : State) (a : Action) (pauseOnLine : Bool) :
    perform (settings.pausing pauseOnLine) s a = perform settings s a := by
  cases a <;> rfl

/-- A step that pauses is the step that does not, or stops where that one goes on. -/
theorem step_pausing (p : Program) (settings : Settings) {s : State} (hs : Active s) :
    step p (settings.pausing true) s = step p (settings.pausing false) s ∨
      (step p (settings.pausing false) s).outcome = .proceed ∧
        step p (settings.pausing true) s =
          ⟨{ (step p (settings.pausing false) s).state with status := .awaiting .advance },
            .awaiting, (step p (settings.pausing false) s).effects⟩ := by
  cases hslot : p.fetch s.pc with
  | endOfProgram =>
      left
      rw [step_of_end hs hslot, step_of_end hs hslot]
  | malformed tag reason =>
      left
      rw [step_of_malformed hs hslot, step_of_malformed hs hslot]
  | action a =>
      rw [step_of_action hs hslot, step_of_action hs hslot, perform_pausing, perform_pausing]
      by_cases hline : ∃ speaker content voice, a = .line speaker content voice
      · -- At a line both settings perform the same, and both go to the next position.
        right
        obtain ⟨speaker, content, voice, rfl⟩ := hline
        exact ⟨rfl, rfl⟩
      · left
        have hother : ∀ speaker content voice, a ≠ .line speaker content voice :=
          fun speaker content voice ha => hline ⟨speaker, content, voice, ha⟩
        rw [flowOf_pausing hother, flowOf_pausing hother]

/-- Without pauses no step waits for the player to go on. -/
theorem step_unpaused (p : Program) (settings : Settings) {s : State} (hs : Active s) :
    (step p (settings.pausing false) s).state.status ≠ .awaiting .advance := by
  generalize hstep : step p (settings.pausing false) s = t
  have hcases := step_cases p (settings.pausing false) hs
  rw [hstep] at hcases
  cases hcases with
  | @await a wait resumeAt hslot hflow =>
      have hleads := leads_flowOf p (settings.pausing false) s a
      rw [hflow] at hleads
      cases hleads with
      | pause hpause => exact absurd hpause Bool.false_ne_true
      | present hoffers => simp
  | _ => simp [perform]

/-! ### Slices -/

/-- Slices of states that differ in one-shots only put out the same. -/
theorem slice_quiet {p : Program} {settings : Settings} {s s' t : State} {o : Output}
    (h : Slice p settings s t o) (hs : Active s) (hquiet : s.quiet = s'.quiet) :
    ∃ t', Slice p settings s' t' o ∧ t.quiet = t'.quiet := by
  induction h generalizing s' with
  | @stop s hstop =>
      obtain ⟨hstate, houtcome, heffects⟩ :=
        Transition.mk.inj (step_quiet p settings hs hquiet)
      rw [houtcome] at hstop
      rw [houtcome, heffects]
      exact ⟨_, .stop hstop, hstate⟩
  | @go s t o hgo hrest ih =>
      obtain ⟨hstate, houtcome, heffects⟩ :=
        Transition.mk.inj (step_quiet p settings hs hquiet)
      obtain ⟨t', hrest', ht'⟩ := ih (step_active hs hgo) hstate
      rw [houtcome] at hgo
      rw [heffects]
      exact ⟨t', .go hgo hrest', ht'⟩

/-- A slice without pauses is one with pauses, unless it meets a line: then the one with pauses
    ends there, and what it leaves, once answered, is a state of the one without. -/
theorem slice_pausing {p : Program} {settings : Settings} {s t : State} {o : Output}
    (h : Slice p (settings.pausing false) s t o) (hs : Active s) :
    Slice p (settings.pausing true) s t o ∧ t.status ≠ .awaiting .advance ∨
      ∃ r first rest,
        Slice p (settings.pausing true) s { r with status := .awaiting .advance } first ∧
          0 < first.steps ∧ r.status = .running ∧
          Slice p (settings.pausing false) r t rest ∧ o = Output.followedBy first rest := by
  induction h with
  | @stop s hstop =>
      left
      rcases step_pausing p settings hs with hsame | ⟨hgo, -⟩
      · refine ⟨?_, step_unpaused p settings hs⟩
        rw [← hsame] at hstop ⊢
        exact .stop hstop
      · exact absurd hgo hstop
  | @go s t o hgo hrest ih =>
      rcases step_pausing p settings hs with hsame | ⟨-, hpause⟩
      · -- No line here: the paused slice goes on as the other does, up to wherever that ends.
        rcases ih (step_active hs hgo) with
          ⟨hslice, hend⟩ | ⟨r, first, rest, hfirst, -, hr, hlast, ho⟩
        · left
          rw [← hsame] at hgo hslice ⊢
          exact ⟨.go hgo hslice, hend⟩
        · right
          rw [← hsame] at hgo hfirst ⊢
          refine ⟨r, _, rest, .go hgo hfirst, Nat.succ_pos _, hr, hlast, ?_⟩
          simp only [ho, Output.followedBy, List.append_assoc, Output.mk.injEq, true_and]
          omega
      · -- The step meets a line: with pauses the slice is over, without it goes on.
        right
        have hstop : (step p (settings.pausing true) s).outcome ≠ .proceed := by
          rw [hpause]
          exact Outcome.noConfusion
        have hfirst := Slice.stop hstop
        rw [hpause] at hfirst
        refine ⟨_, _, o, hfirst, Nat.one_pos, step_running hs hgo, hrest, ?_⟩
        simp only [Output.followedBy, Output.mk.injEq, true_and]
        omega

/-! ### Reading line by line -/

/-- Runs, each of which waits at a line and is answered by going on, then one that does not:
    the outputs in order and the state the last one leaves. -/
inductive Pages (p : Program) (settings : Settings) : State → List Output → State → Prop where
  | last {s t : State} {o : Output} (hrun : run p settings s = (t, o))
      (hend : t.status ≠ .awaiting .advance) : Pages p settings s [o] t
  | turn {s u r t : State} {o : Output} {os : List Output} (hrun : run p settings s = (u, o))
      (hwait : u.status = .awaiting .advance) (hresume : resume p u .advance = (r, .ok ()))
      (hrest : Pages p settings r os t) : Pages p settings s (o :: os) t

/-- The outputs of several runs come to one: the outcome of the last, all effects in order, and
    all steps. -/
structure ComesTo (os : List Output) (o : Output) : Prop where
  outcome : os.getLast?.map Output.outcome = some o.outcome
  effects : os.flatMap Output.effects = o.effects
  steps : Output.totalSteps os = o.steps

theorem comesTo_singleton (o : Output) : ComesTo [o] o where
  outcome := rfl
  effects := by simp
  steps := by simp [Output.totalSteps]

theorem ComesTo.cons {os : List Output} {rest : Output} (h : ComesTo os rest) (first : Output) :
    ComesTo (first :: os) (Output.followedBy first rest) where
  outcome := by
    obtain ⟨last, hlast, houtcome⟩ := Option.map_eq_some_iff.1 h.outcome
    simp [List.getLast?_cons, hlast, houtcome, Output.followedBy]
  effects := by simp [Output.followedBy, ← h.effects]
  steps := by rw [Output.totalSteps, h.steps, Output.followedBy]

theorem resume_of_awaiting {p : Program} {s : State} (h : s.status = .awaiting .advance) :
    resume p s .advance = ({ s with status := .running }, .ok ()) := by
  rw [resume, advance, if_neg (not_not_intro h)]

/-- A slice without pauses can be read line by line. -/
theorem pages_of_slice {p : Program} {settings : Settings} {s t : State} {o : Output}
    (hs : Active s) (h : Slice p (settings.pausing false) s.quiet t o)
    (hsteps : o.steps ≤ settings.maxSteps) :
    ∃ os t', Pages p (settings.pausing true) s os t' ∧ t'.quiet = t.quiet ∧ ComesTo os o := by
  -- By induction on the steps of the slice: what is left after a line has fewer.
  generalize hn : o.steps = n
  induction n using Nat.strongRecOn generalizing s t o with
  | ind n ih =>
      rcases slice_pausing h hs with ⟨hslice, hend⟩ | ⟨r, first, rest, hfirst, hpos, hr, hlast, ho⟩
      · exact ⟨[o], t, .last (run_of_slice hs hslice hsteps) hend, rfl, comesTo_singleton o⟩
      · have hsum : first.steps + rest.steps = o.steps := by rw [ho, Output.followedBy]
        have hrun := run_of_slice hs hfirst (by simp only [Settings.pausing]; omega)
        -- Going on puts back the status that the pause took away, and that is all it took.
        have hresume : resume p { r with status := .awaiting .advance } .advance = (r, .ok ()) := by
          rw [resume_of_awaiting rfl, ← hr]
        -- The next run starts without the one-shots of this slice; the rest does not notice.
        have hquiet : r.quiet = r.quiet.quiet := rfl
        obtain ⟨t', hrest, ht'⟩ := slice_quiet hlast (.inr hr) hquiet
        obtain ⟨os, t'', hpages, ht'', hos⟩ :=
          ih rest.steps (by omega) (.inr hr) hrest (by omega) rfl
        refine ⟨first :: os, t'', .turn hrun rfl hresume hpages, ht''.trans ht'.symm, ?_⟩
        rw [ho]
        exact hos.cons first

/-- Pausing after every line does not change what a script does: if a run without pauses is not
    aborted for its length, then reading line by line comes to an end that is no line, in the
    same state up to one-shots, and the outputs come to the output of that run. -/
theorem pages_of_run (p : Program) (settings : Settings) {s : State} (hs : Active s)
    (hlimit : (run p (settings.pausing false) s).2.outcome ≠
      .aborted (.stepLimit settings.maxSteps)) :
    ∃ os t, Pages p (settings.pausing true) s os t ∧
      t.quiet = (run p (settings.pausing false) s).1.quiet ∧
      ComesTo os (run p (settings.pausing false) s).2 := by
  obtain ⟨hslice, hsteps⟩ := slice_of_run hs hlimit
  exact pages_of_slice hs hslice hsteps

/-- Two lines with a sound and a checkpoint between them, in three slices. -/
theorem pages_of_two_lines :
    let p := Program.ofActions [.line none (some "Hello.") none, .playSound "bell",
      .checkpoint (some "met"), .line none (some "Goodbye.") none]
    Active {} ∧ (run p {} {}).2.outcome ≠ .aborted (.stepLimit 10000) ∧
      ∃ os t, Pages p { pauseOnLine := true } {} os t ∧ t.quiet = (run p {} {}).1.quiet ∧
        ComesTo os ⟨.finished, [.checkpoint (some "met")], 5⟩ :=
  have hactive : Active {} := .inl rfl
  ⟨hactive, by decide, pages_of_run _ {} hactive (by decide)⟩

end Engine

end Parley
