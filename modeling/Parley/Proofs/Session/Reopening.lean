/-
  Parley.Proofs.Session.Reopening

  Stopping a session and opening it again. The record of a stopped session keeps its position,
  and position 0 also means "from the checkpoint if there is one". So a session that was stopped
  while it waited for a choice comes back to this choice in one step, unless it waited at
  position 0 with a checkpoint that resolves: then it starts just past the checkpoint
  (`returnsTo_iff_stopped_at_choice`).

  A state that waits for a choice waits at an action that presents it (`Presenting`). Every run
  establishes this for the time of day it runs in, and every call but one that sets the time of
  day keeps it. Opened at that position, the session meets the same action at once.
-/
import Parley.Proofs.Session.Lifecycle
import Parley.Proofs.Save.Store

namespace Parley

variable {H : Type} [Host H]

namespace Engine

/-! ### What a run waits for -/

/-- If the state waits for a choice, the action at its position presents, at the time of day of
    the state, the choices on screen. -/
def Presenting (p : Program) (s : State) : Prop :=
  s.status = .awaiting .choice →
    ∃ a, p.fetch s.pc = .action a ∧ a.offers s.isDay = s.screen.choices ∧ s.screen.choices ≠ []

/-- A step that waits for a choice stays where it is. -/
theorem step_awaiting_choice {p : Program} {settings : Settings} {s : State} (hs : Active s)
    (hstatus : (step p settings s).state.status = .awaiting .choice) :
    (step p settings s).state.pc = s.pc ∧ (step p settings s).state.isDay = s.isDay ∧
      ∃ a, p.fetch s.pc = .action a ∧ a.offers s.isDay ≠ [] ∧
        (step p settings s).state.screen.choices = a.offers s.isDay := by
  have hstep := step_cases p settings hs
  generalize step p settings s = t at hstep hstatus ⊢
  cases hstep with
  | @await a wait resumeAt hslot hflow =>
      have hleads := leads_flowOf p settings s a
      rw [hflow] at hleads
      cases hleads with
      | pause => cases hstatus
      | present hoffers =>
          refine ⟨rfl, rfl, a, hslot, hoffers, ?_⟩
          show (a.paint s.isDay s.screen).choices = a.offers s.isDay
          rw [paint_choices, if_neg hoffers]
  | _ => cases hstatus

theorem step_presenting {p : Program} {settings : Settings} {s : State} (hs : Active s) :
    Presenting p (step p settings s).state := by
  intro hstatus
  obtain ⟨hpc, hday, a, hslot, hoffers, hchoices⟩ := step_awaiting_choice hs hstatus
  rw [hpc, hday, hchoices]
  exact ⟨a, hslot, rfl, hoffers⟩

theorem run_presenting (p : Program) (settings : Settings) {s : State} (hs : Active s) :
    Presenting p (run p settings s).1 :=
  run_induction Active (fun s _ => Presenting p s) (fun _ => step_active)
    (fun _ hactive _ => step_presenting hactive) (fun _ _ _ => nofun) hs hs

theorem step_isDay {p : Program} {settings : Settings} {s : State} (hs : Active s) :
    (step p settings s).state.isDay = s.isDay := by
  have hstep := step_cases p settings hs
  generalize step p settings s = t at hstep ⊢
  cases hstep <;> rfl

/-- No run changes the time of day. -/
theorem run_isDay (p : Program) (settings : Settings) (s : State) :
    (run p settings s).1.isDay = s.isDay := by
  cases hresting : restingOutcome? s.status with
  | some outcome => rw [run, hresting]
  | none =>
      have hs : Active s := restingOutcome?_eq_none.1 hresting
      refine run_induction (fun t => Active t ∧ t.isDay = s.isDay) (fun t _ => t.isDay = s.isDay)
        ?_ ?_ ?_ hs ⟨hs, rfl⟩
      · intro t ht hproceed
        exact ⟨step_active ht.1 hproceed, (step_isDay ht.1).trans ht.2⟩
      · intro t ht _
        exact (step_isDay ht.1).trans ht.2
      · intro t _ ht
        exact ht.2

theorem resume_isDay (p : Program) (s : State) (input : Input) :
    (resume p s input).1.isDay = s.isDay := by
  obtain ⟨pc, status, choices, hresume⟩ := resume_changes p s input
  rw [hresume]

/-- A run that may not take a step does not get to wait. -/
theorem maxSteps_ne_zero_of_awaiting {p : Program} {settings : Settings} {s : State} {wait : Wait}
    (hs : Active s) (hstatus : (run p settings s).1.status = .awaiting wait) :
    settings.maxSteps ≠ 0 := by
  intro hzero
  rw [run, restingOutcome?_eq_none.2 hs] at hstatus
  simp only [hzero, loop] at hstatus
  cases hstatus

theorem slice_steps_pos {p : Program} {settings : Settings} {s t : State} {o : Output}
    (h : Slice p settings s t o) : 0 < o.steps := by
  cases h <;> exact Nat.succ_pos _

/-- A run of one step that waits for a choice stays where it is. -/
theorem run_pc_of_one_step {p : Program} {settings : Settings} {s : State} (hs : Active s)
    (hsteps : (run p settings s).2.steps = 1)
    (hstatus : (run p settings s).1.status = .awaiting .choice) :
    (run p settings s).1.pc = s.pc := by
  have hlimit : (run p settings s).2.outcome ≠ .aborted (.stepLimit settings.maxSteps) := by
    intro houtcome
    have hreports := run_reports p settings hs
    rw [houtcome, hstatus] at hreports
    exact hreports
  obtain ⟨hslice, -⟩ := slice_of_run hs hlimit
  generalize run p settings s = result at hsteps hstatus hslice ⊢
  obtain ⟨t, o⟩ := result
  have hclear : Active { s with screen := s.screen.clearOneShots } := hs
  cases hslice with
  | stop hstop => exact (step_awaiting_choice hclear hstatus).1
  | go hgo hrest =>
      have hpos := slice_steps_pos hrest
      simp only at hsteps
      omega

/-- At an action that presents choices, a run is one step: it shows them and waits. -/
theorem run_of_offers {p : Program} {settings : Settings} {s : State} {a : Action}
    (hs : Active s) (hsteps : settings.maxSteps ≠ 0) (hslot : p.fetch s.pc = .action a)
    (hoffers : a.offers s.isDay ≠ []) :
    (run p settings s).2 = ⟨.awaiting, [], 1⟩ ∧
      (run p settings s).1.status = .awaiting .choice ∧ (run p settings s).1.pc = s.pc ∧
      (run p settings s).1.screen.choices = a.offers s.isDay ∧
      (run p settings s).1.globals = s.globals := by
  let t : State := { s with screen := s.screen.clearOneShots }
  have ht : Active t := hs
  have hflow : flowOf p settings t a = .await .choice t.pc := flowOf_of_offers hoffers
  -- Such an action asks nothing of the host and writes no global variable.
  have hplain : a.requests = [] ∧ a.writeGlobals t.globals = t.globals := by
    rcases offers_eq hoffers with ha | ha <;> rw [ha] <;> exact ⟨rfl, rfl⟩
  have hstep : step p settings t =
      ⟨{ perform settings t a with status := .awaiting .choice }, .awaiting, []⟩ := by
    rw [step_of_action ht hslot, hflow, hplain.1]
    rfl
  have hslice : Slice p settings t (step p settings t).state
      ⟨(step p settings t).outcome, (step p settings t).effects, 1⟩ :=
    .stop (by rw [hstep]; nofun)
  have hrun := run_of_slice hs hslice (by simp only; omega)
  rw [hstep] at hrun
  rw [hrun]
  have hchoices : (a.paint t.isDay t.screen).choices = a.offers s.isDay := by
    rw [paint_choices, if_neg hoffers]
  exact ⟨rfl, rfl, rfl, hchoices, hplain.2⟩

end Engine

namespace Session

open Engine

/-! ### What a history keeps -/

theorem submit_identity (s : Session H) (input : Input) :
    (s.submit input).1.identity = s.identity := by
  unfold submit
  split <;> rfl

/-- Only setting the time of day changes the identity. -/
theorem call_identity (s : Session H) {c : Call} (hc : ∀ isDay, c ≠ .setDay isDay) :
    (s.call c).1.identity = s.identity := by
  cases c with
  | start =>
      simp only [call, start]
      split <;> rfl
  | choose label => exact submit_identity s (.choose label)
  | advance => exact submit_identity s .advance
  | stop => rfl
  | setDay isDay => exact absurd rfl (hc isDay)
  | takePending =>
      simp only [call, takePending]
      cases s.pending <;> rfl
  | saved => rfl

theorem submit_isDay (s : Session H) (input : Input) :
    (s.submit input).1.state.isDay = s.state.isDay := by
  have hresume := resume_isDay s.program s.state input
  unfold submit
  split
  · rename_i state e heq
    rw [heq] at hresume
    exact hresume
  · rename_i state heq
    rw [heq] at hresume
    exact (run_isDay _ _ _).trans hresume

/-- The identity and the state agree on the time of day. -/
def DayAgrees (s : Session H) : Prop := s.identity.isDay = s.state.isDay

/-- Only setting the time of day changes it. -/
theorem call_isDay (s : Session H) {c : Call} (hc : ∀ isDay, c ≠ .setDay isDay) :
    (s.call c).1.state.isDay = s.state.isDay := by
  cases c with
  | start =>
      simp only [call, start]
      split
      · rfl
      · exact run_isDay _ _ _
  | choose label => exact submit_isDay s (.choose label)
  | advance => exact submit_isDay s .advance
  | stop => exact resume_isDay s.program s.state .stop
  | setDay isDay => exact absurd rfl (hc isDay)
  | takePending =>
      simp only [call, takePending]
      cases s.pending <;> rfl
  | saved => rfl

theorem call_dayAgrees {s : Session H} (hs : s.DayAgrees) (c : Call) : (s.call c).1.DayAgrees := by
  by_cases hc : ∃ isDay, c = .setDay isDay
  · obtain ⟨isDay, rfl⟩ := hc
    rfl
  · have hother : ∀ isDay, c ≠ .setDay isDay := fun isDay h => hc ⟨isDay, h⟩
    rw [DayAgrees, call_identity s hother, call_isDay s hother]
    exact hs

theorem after_dayAgrees {s : Session H} (hs : s.DayAgrees) (calls : List Call) :
    (s.after calls).DayAgrees := by
  induction calls generalizing s with
  | nil => exact hs
  | cons c calls ih => exact ih (call_dayAgrees hs c)

/-- A call that does not set the time of day leaves a session that waits at what it waits for. -/
theorem call_presenting {s : Session H} (hs : Presenting s.program s.state) {c : Call}
    (hc : ∀ isDay, c ≠ .setDay isDay) : Presenting s.program (s.call c).1.state := by
  have hday := call_isDay s hc
  have hmoved := call_moved s c
  generalize (s.call c).1.state = t, (s.call c).2.output? = output at hday hmoved ⊢
  cases hmoved with
  | same | wait => exact hs
  | day isDay =>
      simp only at hday
      subst hday
      exact hs
  | stop | lose => nofun
  | run hresumed => exact run_presenting _ _ hresumed.active

theorem after_presenting {s : Session H} (hs : Presenting s.program s.state) {calls : List Call}
    (hcalls : ∀ isDay, .setDay isDay ∉ calls) : Presenting s.program (s.after calls).state := by
  induction calls generalizing s with
  | nil => exact hs
  | cons c calls ih =>
      have hc : ∀ isDay, c ≠ .setDay isDay :=
        fun isDay h => hcalls isDay (h ▸ List.mem_cons_self)
      have hrest : ∀ isDay, .setDay isDay ∉ calls :=
        fun isDay h => hcalls isDay (List.mem_cons_of_mem c h)
      have hprogram := (call_fixed s c).1
      have hcall := call_presenting hs hc
      rw [← hprogram] at hcall ⊢
      exact ih hcall hrest

/-- A session of whatever history waits only if its runs may take a step. -/
theorem after_awaiting_maxSteps {s : Session H} (hs : s.state.status = .idle) {calls : List Call}
    {wait : Wait} (hstatus : (s.after calls).state.status = .awaiting wait) :
    s.settings.maxSteps ≠ 0 := by
  have hall : ∀ wait, (s.after calls).state.status = .awaiting wait → s.settings.maxSteps ≠ 0 := by
    refine after_induction (P := fun t => ∀ wait, t.status = .awaiting wait →
      s.settings.maxSteps ≠ 0) ?_ (by rw [hs]; nofun) calls
    intro t t' output ht hmoved
    cases hmoved with
    | same | wait | day => exact ht
    | stop | lose => nofun
    | run hresumed => exact fun wait => maxSteps_ne_zero_of_awaiting hresumed.active
  exact hall wait hstatus

/-- A call executes something. -/
def Runs (s : Session H) (c : Call) : Prop :=
  ∃ output, (s.call c).2 = .ran (.ok output) ∧ 0 < output.steps

theorem presenting_of_runs {s : Session H} {c : Call} (h : s.Runs c) :
    Presenting s.program (s.call c).1.state := by
  obtain ⟨output, hreply, hsteps⟩ := h
  have hmoved := call_moved s c
  rw [hreply] at hmoved
  generalize (s.call c).1.state = t at hmoved ⊢
  cases hmoved with
  | wait => exact absurd hsteps (Nat.lt_irrefl 0)
  | run hresumed => exact run_presenting _ _ hresumed.active

/-! ### Opening again -/

/-- A new session of the same player in the same program, opened from a book into which the
    progress of this one was entered. -/
def reopened (s : Session H) (host : H) (book : Book) (entropy : UInt64) : Session H :=
  ofBook s.program s.identity host (book.upsert s.progress) s.settings entropy

theorem load_upsert_save (t s : State) (p : Program) (b : Book) (var : String) {i j : Identity}
    (hentity : i.entity = j.entity) (huid : i.uid = j.uid) :
    t.load i p (b.upsert (s.save j var)) =
      { t with globals := s.globals, pc := (s.save j var).own.startingPoint p } := by
  have hlocal : (b.upsert (s.save j var)).findLocal i = some (s.save j var).own :=
    b.findLocal_upsert (by simp [LocalRecord.isOf, State.save, hentity, huid])
  have hglobal : (b.upsert (s.save j var)).findGlobal i.entity = some (s.save j var).global := by
    rw [hentity]
    exact b.findGlobal_upsert (s.save j var)
  rw [State.load, hlocal, hglobal]
  rfl

omit [Host H] in
theorem reopened_state (s : Session H) (host : H) (book : Book) (entropy : UInt64) :
    (s.reopened host book entropy).state =
      { seed := s.settings.seed.getD entropy
        isDay := s.identity.isDay
        globals := s.state.globals
        pc := s.progress.own.startingPoint s.program } :=
  load_upsert_save _ s.state s.program book s.settings.checkpointVar rfl rfl

/-- Where the checkpoint leads that the record of the session carries. -/
def checkpointTarget (s : Session H) : Option Nat :=
  s.progress.own.checkpoint.bind s.program.target

/-- The session starts with one step that asks nothing of the host, and then waits at the same
    place for the same choice, with the same global variables. -/
structure ReturnsTo (again s : Session H) : Prop where
  output : again.start.2 = .ok ⟨.awaiting, [], 1⟩
  status : again.start.1.state.status = .awaiting .choice
  position : again.start.1.state.pc = s.state.pc
  choices : again.start.1.state.screen.choices = s.state.screen.choices
  globals : again.start.1.state.globals = s.state.globals

/-- Starting an idle session runs its program from where it is. -/
theorem start_of_idle {s : Session H} (h : s.state.status = .idle) :
    s.start.2 = .ok (Engine.run s.program s.settings { s.state with status := .running }).2 ∧
      s.start.1.state =
        (Engine.run s.program s.settings { s.state with status := .running }).1 := by
  rw [start_of_active (.inl h)]
  exact ⟨rfl, rfl⟩

/-- A session that returns to a choice was opened at the position of the choice. -/
theorem ReturnsTo.opened_at {again s : Session H} (hidle : again.state.status = .idle)
    (h : again.ReturnsTo s) : again.state.pc = s.state.pc := by
  obtain ⟨hreply, hstate⟩ := start_of_idle hidle
  have hactive : Active { again.state with status := .running } := .inr rfl
  have hsteps :
      (Engine.run again.program again.settings { again.state with status := .running }).2.steps =
        1 := by
    have houtput := hreply.symm.trans h.output
    injection houtput with houtput
    exact congrArg Output.steps houtput
  have hstatus := h.status
  have hposition := h.position
  rw [hstate] at hstatus hposition
  exact (run_pc_of_one_step hactive hsteps hstatus).symm.trans hposition

/-- Opened at the position of a choice, by the same time of day, a session returns to it. -/
theorem returnsTo_of_opened_at {again s : Session H} (hidle : again.state.status = .idle)
    (hprogram : again.program = s.program) (hsteps : again.settings.maxSteps ≠ 0)
    (hpc : again.state.pc = s.state.pc) (hday : again.state.isDay = s.state.isDay)
    (hglobals : again.state.globals = s.state.globals)
    (hstatus : s.state.status = .awaiting .choice) (hpresenting : Presenting s.program s.state) :
    again.ReturnsTo s := by
  obtain ⟨a, hslot, hoffers, hchoices⟩ := hpresenting hstatus
  rw [← hprogram, ← hpc] at hslot
  rw [← hday] at hoffers
  have hactive : Active { again.state with status := .running } := .inr rfl
  obtain ⟨houtput, hwaits, hposition, hshown, hkept⟩ :=
    run_of_offers hactive hsteps hslot (by rw [hoffers]; exact hchoices)
  obtain ⟨hreply, hstate⟩ := start_of_idle hidle
  rw [← hstate] at hwaits hposition hshown hkept
  exact {
    output := by rw [hreply, houtput]
    status := hwaits
    position := hposition.trans hpc
    choices := hshown.trans hoffers
    globals := hkept.trans hglobals }

omit [Host H] in
/-- Where a session starts that was stopped while it waited: where it waited, or, if that is
    position 0, where its checkpoint leads. -/
theorem reopened_stop_state {s : Session H} {wait : Wait}
    (hstatus : s.state.status = .awaiting wait) (host : H) (book : Book) (entropy : UInt64) :
    (s.stop.reopened host book entropy).state =
      { seed := s.settings.seed.getD entropy
        isDay := s.identity.isDay
        globals := s.state.globals
        pc := if s.state.pc ≠ 0 then s.state.pc else s.checkpointTarget.getD 0 } := by
  rw [reopened_state, stop_of_open (by rw [hstatus]; rfl)]
  rfl

omit [Host H] in
theorem checkpointTarget_ne_zero {s : Session H} {target : Nat}
    (h : s.checkpointTarget = some target) : target ≠ 0 := by
  obtain ⟨name, -, htarget⟩ := Option.bind_eq_some_iff.1 h
  rw [Program.target] at htarget
  obtain ⟨position, -, rfl⟩ := Option.map_eq_some_iff.1 htarget
  exact Nat.succ_ne_zero position

omit [Host H] in
/-- A label resolves to a position past 0, so a checkpoint that resolves never leads back to a
    choice at position 0. -/
theorem opened_at_iff (s : Session H) :
    (if s.state.pc ≠ 0 then s.state.pc else s.checkpointTarget.getD 0) = s.state.pc ↔
      s.state.pc ≠ 0 ∨ s.checkpointTarget = none := by
  by_cases hpc : s.state.pc = 0
  · cases htarget : s.checkpointTarget with
    | none => simp [hpc]
    | some target => simp [hpc, checkpointTarget_ne_zero htarget]
  · simp [hpc]

/-- A session that waits for a choice, and whose time of day was not set since the run that
    came to this choice, returns to the choice after it was stopped, saved and opened again,
    exactly if it does not wait at position 0 with a checkpoint that resolves. In that case it
    starts just past the checkpoint. -/
theorem returnsTo_iff_stopped_at_choice (program : Program) (identity : Identity) (host : H)
    (book : Book) (settings : Settings) (entropy : UInt64) (before since : List Call) (c : Call)
    (hruns : ((ofBook program identity host book settings entropy).after before).Runs c)
    (hday : ∀ isDay, .setDay isDay ∉ since) :
    let s := (ofBook program identity host book settings entropy).after (before ++ c :: since)
    s.state.status = .awaiting .choice →
      ∀ (host' : H) (book' : Book) (entropy' : UInt64),
        let again := s.stop.reopened host' book' entropy'
        (again.ReturnsTo s ↔ s.state.pc ≠ 0 ∨ s.checkpointTarget = none) ∧
          ∀ target, s.state.pc = 0 → s.checkpointTarget = some target →
            again.state.pc = target := by
  intro s hstatus host' book' entropy' again
  let opened := ofBook program identity host book settings entropy
  have hs : s = (((opened.after before).call c).1).after since := by
    simp only [s, opened, after, List.foldl_append, List.foldl_cons]
  have hfixed := after_fixed opened (before ++ c :: since)
  have hpresenting : Presenting s.program s.state := by
    have hcall := presenting_of_runs hruns
    rw [← (call_fixed _ c).1] at hcall
    have hafter := after_presenting hcall hday
    rw [← hs, ← (after_fixed _ since).1, ← hs] at hafter
    exact hafter
  have hagrees : s.DayAgrees := after_dayAgrees (show opened.DayAgrees from rfl) _
  have hsteps : s.settings.maxSteps ≠ 0 := by
    rw [hfixed.2]
    exact after_awaiting_maxSteps rfl hstatus
  have hstate := reopened_stop_state hstatus host' book' entropy'
  have hidle : again.state.status = .idle := by rw [hstate]
  refine ⟨?_, ?_⟩
  · rw [← opened_at_iff]
    have hpc : again.state.pc =
        if s.state.pc ≠ 0 then s.state.pc else s.checkpointTarget.getD 0 := by rw [hstate]
    rw [← hpc]
    refine ⟨fun h => h.opened_at hidle, fun h => ?_⟩
    exact returnsTo_of_opened_at hidle rfl hsteps h (by rw [hstate]; exact hagrees)
      (by rw [hstate]) hstatus hpresenting
  · intro target hpc htarget
    rw [hstate]
    simp only [hpc, htarget, ne_eq, not_true_eq_false, if_false, Option.getD_some]

/-- A choice of the night that is met after a checkpoint: stopped there, the player is back at
    the choice and not at the checkpoint. -/
theorem returnsTo_night_choice :
    let program := Program.ofActions
      [.checkpoint (some "inn"), .nightChoice [⟨"inn", "Sleep"⟩], .label "inn"]
    let opened := ofBook program ⟨⟨"villager", "Mira"⟩, "player", true⟩ SilentHost.silent {} {} 0
    let s := opened.after ([.setDay false] ++ .start :: [.choose "flee", .saved])
    (opened.after [.setDay false]).Runs .start ∧ s.state.status = .awaiting .choice ∧
      (s.stop.reopened SilentHost.silent {} 1).ReturnsTo s := by
  intro program opened s
  have hruns : (opened.after [.setDay false]).Runs .start :=
    ⟨⟨.awaiting, [.checkpoint (some "inn")], 2⟩, by rfl, by decide⟩
  have hstatus : s.state.status = .awaiting .choice := by rfl
  have hreturns := returnsTo_iff_stopped_at_choice program ⟨⟨"villager", "Mira"⟩, "player", true⟩
    SilentHost.silent {} {} 0 [.setDay false] [.choose "flee", .saved] .start hruns (by simp)
    hstatus SilentHost.silent {} 1
  exact ⟨hruns, hstatus, hreturns.1.2 (.inl (by decide))⟩

/-- Position 0 is taken for the end of a session: stopped at a choice there, after a checkpoint,
    the session starts at the checkpoint and runs to its end without asking. -/
theorem not_returnsTo_at_zero :
    let program := Program.ofActions
      [.choice [⟨"ask", "Ask"⟩], .label "ask", .checkpoint (some "later"),
        .whenLocal ⟨none, .night, .null, 0⟩, .label "later", .line none (some "Later.") none]
    let s := (ofBook program ⟨⟨"villager", "Mira"⟩, "player", true⟩ SilentHost.silent {} {} 0).after
      [.start, .choose "ask"]
    s.state.status = .awaiting .choice ∧ s.state.pc = 0 ∧
      (s.stop.reopened SilentHost.silent {} 0).start.1.state.status = .finished .endOfScript ∧
      ¬ (s.stop.reopened SilentHost.silent {} 0).ReturnsTo s := by
  refine ⟨by decide +kernel, by decide +kernel, by decide +kernel, fun h => ?_⟩
  exact absurd h.status (by decide +kernel)

end Session

end Parley
