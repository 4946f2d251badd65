/-
  Parley.Proofs.Engine.Lockstep

  Two executions side by side. A relation between states that inputs and moving on preserve, and
  that every action met on the way preserves too (`Lockstep`), is preserved by steps, runs and
  inputs, and both sides return the same.

  What a script shows is an example. Only the choices on screen are ever read, so states that
  agree behind the screen (`SameBackstage`) cannot be told apart by anything that is done to
  them (`screen_unread`).
-/
import Parley.Proofs.Engine.Trace

namespace Parley.Engine

/-! ### Executions side by side -/

/-- A relation between the states of two executions that go hand in hand, each of a program
    under settings. It may ask of every state that the first execution meets that `met` holds. -/
structure Lockstep (p p' : Program) (settings settings' : Settings) (met : State → Prop)
    (R : State → State → Prop) : Prop where
  limit : settings.maxSteps = settings'.maxSteps
  target (label : String) : p.target label = p'.target label
  pc {s t : State} (h : R s t) : s.pc = t.pc
  status {s t : State} (h : R s t) : s.status = t.status
  choices {s t : State} (h : R s t) : s.screen.choices = t.screen.choices
  moved {s t : State} (h : R s t) (pc : Nat) (status : Status) (choices : List ChoiceOption) :
    R { s with pc, status, screen := { s.screen with choices } }
      { t with pc, status, screen := { t.screen with choices } }
  fresh {s t : State} (h : R s t) :
    R { s with screen := s.screen.clearOneShots } { t with screen := t.screen.clearOneShots }
  slot {s t : State} (h : R s t) (hmet : met s) : p.fetch s.pc = p'.fetch s.pc
  flow {s t : State} {a : Action} (h : R s t) (hmet : met s) (hslot : p.fetch s.pc = .action a) :
    flowOf p settings s a = flowOf p' settings' t a
  performed {s t : State} {a : Action} (h : R s t) (hmet : met s)
    (hslot : p.fetch s.pc = .action a) : R (perform settings s a) (perform settings' t a)

/-- Two steps that return the same, and leave related states. -/
structure Abreast (R : State → State → Prop) (x y : Transition) : Prop where
  outcome : x.outcome = y.outcome
  effects : x.effects = y.effects
  state : R x.state y.state

namespace Lockstep

variable {p p' : Program} {settings settings' : Settings} {met : State → Prop}
  {R : State → State → Prop}

/-- Two states that are moved to the same place, with the same choices on screen. -/
theorem placed (h : Lockstep p p' settings settings' met R) {s t : State} (hR : R s t)
    {pc pc' : Nat} {status status' : Status} (hpc : pc = pc') (hstatus : status = status')
    (choices : List ChoiceOption) :
    R { s with pc, status, screen := { s.screen with choices } }
      { t with pc := pc', status := status', screen := { t.screen with choices } } := by
  subst hpc hstatus
  exact h.moved hR pc status choices

/-- Moving on leaves the choices on screen as they are. -/
theorem settled (h : Lockstep p p' settings settings' met R) {s t : State} (hR : R s t)
    {pc pc' : Nat} {status status' : Status} (hpc : pc = pc') (hstatus : status = status') :
    R { s with pc, status } { t with pc := pc', status := status' } := by
  -- The choices are set to what both screens show already, which changes neither.
  have hplaced := h.placed hR hpc hstatus s.screen.choices
  have hchoices : { t.screen with choices := s.screen.choices } = t.screen := by
    rw [h.choices hR]
  rw [hchoices] at hplaced
  exact hplaced

theorem active (h : Lockstep p p' settings settings' met R) {s t : State} (hR : R s t)
    (hs : Active s) : Active t := by
  rw [Active, ← h.status hR]
  exact hs

/-! ### Steps -/

theorem settle_abreast (h : Lockstep p p' settings settings' met R) {s t : State} (hR : R s t)
    (effects : List Effect) (flow : Flow) :
    Abreast R (⟨s, effects, flow⟩ : Execution).settle (⟨t, effects, flow⟩ : Execution).settle := by
  have hpc := h.pc hR
  have hstatus := h.status hR
  have hnext : s.pc + 1 = t.pc + 1 := by rw [hpc]
  cases flow with
  | next => exact ⟨rfl, rfl, h.settled hR hnext hstatus⟩
  | goto target => exact ⟨rfl, rfl, h.settled hR rfl hstatus⟩
  | await wait resumeAt => exact ⟨rfl, rfl, h.settled hR rfl rfl⟩
  | finish reason => exact ⟨rfl, rfl, h.settled hR hpc rfl⟩
  | abort cause => exact ⟨rfl, rfl, h.settled hR hpc rfl⟩

/-- Related states take the same step, as long as the first of them may be met. -/
theorem step_abreast (h : Lockstep p p' settings settings' met R) {s t : State} (hR : R s t)
    (hs : Active s) (hmet : met s) : Abreast R (step p settings s) (step p' settings' t) := by
  have hpc := h.pc hR
  have ht := h.active hR hs
  have hsame : p.fetch s.pc = p'.fetch t.pc := by rw [← hpc, h.slot hR hmet]
  -- At the end, and at a record that did not read, nothing is performed: only the status is
  -- set. At an action the relation itself says that both perform and go on alike.
  cases hslot : p.fetch s.pc with
  | endOfProgram =>
      rw [step_of_end hs hslot, step_of_end ht (hsame.symm.trans hslot)]
      exact ⟨rfl, rfl, h.settled hR hpc rfl⟩
  | malformed tag reason =>
      have hcause : Abort.malformedAction s.pc tag reason = .malformedAction t.pc tag reason := by
        rw [hpc]
      rw [step_of_malformed hs hslot, step_of_malformed ht (hsame.symm.trans hslot)]
      exact ⟨congrArg Outcome.aborted hcause, rfl,
        h.settled hR hpc (congrArg Status.aborted hcause)⟩
  | action a =>
      rw [step_of_action hs hslot, step_of_action ht (hsame.symm.trans hslot),
        h.flow hR hmet hslot]
      exact h.settle_abreast (h.performed hR hmet hslot) _ _

/-! ### Runs and inputs -/

theorem loop_abreast (h : Lockstep p p' settings settings' met R) {limit fuel : Nat}
    {s t : State} (hR : R s t) (hs : Active s)
    (hmet : ∀ u ∈ visitedWithin p settings fuel s, met u) (effects : List Effect) (done : Nat) :
    (loop p settings limit fuel s effects done).2 =
        (loop p' settings' limit fuel t effects done).2 ∧
      R (loop p settings limit fuel s effects done).1
        (loop p' settings' limit fuel t effects done).1 := by
  -- Along the steps of the first loop. The effects and the count behind it are the same on both
  -- sides, so they are carried along as they are.
  induction fuel generalizing s t effects done with
  | zero => exact ⟨rfl, h.settled hR (h.pc hR) rfl⟩
  | succ fuel ih =>
      rw [visitedWithin, List.forall_mem_cons] at hmet
      obtain ⟨houtcome, heffects, hstate⟩ := h.step_abreast hR hs hmet.1
      rw [loop, loop, ← houtcome, ← heffects]
      cases hstep : (step p settings s).outcome with
      | proceed =>
          -- Both go on, from related states.
          rw [hstep] at hmet
          exact ih hstate (step_active hs hstep) hmet.2 _ _
      | awaiting | finished | aborted => exact ⟨rfl, hstate⟩

/-- Related states run alike. -/
theorem run_abreast (h : Lockstep p p' settings settings' met R) {s t : State} (hR : R s t)
    (hmet : ∀ u ∈ visited p settings s, met u) :
    (run p settings s).2 = (run p' settings' t).2 ∧
      R (run p settings s).1 (run p' settings' t).1 := by
  have hsame : restingOutcome? t.status = restingOutcome? s.status := by rw [h.status hR]
  rw [visited] at hmet
  rw [run, run, hsame, ← h.limit]
  cases hresting : restingOutcome? s.status with
  | some outcome => exact ⟨rfl, hR⟩
  | none =>
      rw [hresting] at hmet
      have hs : Active { s with screen := s.screen.clearOneShots } :=
        restingOutcome?_eq_none.1 hresting
      exact h.loop_abreast (h.fresh hR) hs hmet [] 0

/-- Related states take up an input alike. -/
theorem resume_abreast (h : Lockstep p p' settings settings' met R) {s t : State} (hR : R s t)
    (input : Input) :
    (resume p s input).2 = (resume p' t input).2 ∧
      R (resume p s input).1 (resume p' t input).1 := by
  -- An input reads status, position and pending choices, and the labels of the program. Both
  -- sides agree on all of these, so one case split serves both.
  have hpc := h.pc hR
  have hstatus := h.status hR
  have hchoices := h.choices hR
  cases input with
  | choose label =>
      simp only [resume, choose]
      rw [← hstatus, ← hchoices, ← h.target label]
      by_cases hwaits : s.status = .awaiting .choice
      · rw [if_neg (not_not_intro hwaits), if_neg (not_not_intro hwaits)]
        by_cases hlabel : (!s.screen.choices.any (·.label == label)) = true
        · rw [if_pos hlabel, if_pos hlabel]
          exact ⟨rfl, hR⟩
        · rw [if_neg hlabel, if_neg hlabel]
          cases p.target label with
          | none =>
              have hcause : Abort.unresolvedLabel label s.pc = .unresolvedLabel label t.pc := by
                rw [hpc]
              exact ⟨congrArg (Except.error ∘ InputError.aborted) hcause,
                h.settled hR hpc (congrArg Status.aborted hcause)⟩
          | some target => exact ⟨rfl, h.moved hR target .running []⟩
      · rw [if_pos hwaits, if_pos hwaits]
        exact ⟨rfl, hR⟩
  | advance =>
      simp only [resume, advance]
      rw [← hstatus]
      by_cases hwaits : s.status = .awaiting .advance
      · rw [if_neg (not_not_intro hwaits), if_neg (not_not_intro hwaits)]
        exact ⟨rfl, h.settled hR hpc rfl⟩
      · rw [if_pos hwaits, if_pos hwaits]
        exact ⟨rfl, hR⟩
  | stop =>
      refine ⟨rfl, ?_⟩
      simp only [resume, stop]
      rw [← hstatus]
      cases hended : s.status.isTerminal with
      | true => exact hR
      | false => exact h.placed hR hpc rfl []

end Lockstep

/-! ### Operations -/

/-- What is done to a state from outside. -/
inductive Operation where
  | run
  | resume (input : Input)
deriving DecidableEq, Repr

/-- What an operation returns. -/
inductive Operation.Result where
  | ran (output : Output)
  | resumed (result : Except InputError Unit)

/-- One operation. -/
def operate (p : Program) (settings : Settings) (s : State) : Operation → State × Operation.Result
  | .run => ((run p settings s).1, .ran (run p settings s).2)
  | .resume input => ((resume p s input).1, .resumed (resume p s input).2)

/-- Operations one after another: all that they return, and the state that they leave. -/
def operateAll (p : Program) (settings : Settings) :
    List Operation → State → List Operation.Result × State
  | [], s => ([], s)
  | o :: os, s =>
    let (t, result) := operate p settings s o
    let (results, u) := operateAll p settings os t
    (result :: results, u)

section Operations

variable {p p' : Program} {settings settings' : Settings} {R : State → State → Prop}

theorem Lockstep.operate_abreast (h : Lockstep p p' settings settings' (fun _ => True) R)
    {s t : State} (hR : R s t) (o : Operation) :
    (operate p settings s o).2 = (operate p' settings' t o).2 ∧
      R (operate p settings s o).1 (operate p' settings' t o).1 := by
  cases o with
  | run =>
      obtain ⟨houtput, hstate⟩ := h.run_abreast hR fun _ _ => trivial
      exact ⟨congrArg Operation.Result.ran houtput, hstate⟩
  | resume input =>
      obtain ⟨hresult, hstate⟩ := h.resume_abreast hR input
      exact ⟨congrArg Operation.Result.resumed hresult, hstate⟩

/-- Related states answer any sequence of operations alike. -/
theorem Lockstep.operateAll_abreast (h : Lockstep p p' settings settings' (fun _ => True) R)
    {s t : State} (hR : R s t) (os : List Operation) :
    (operateAll p settings os s).1 = (operateAll p' settings' os t).1 ∧
      R (operateAll p settings os s).2 (operateAll p' settings' os t).2 := by
  induction os generalizing s t with
  | nil => exact ⟨rfl, hR⟩
  | cons o os ih =>
      obtain ⟨hresult, hstate⟩ := h.operate_abreast hR o
      obtain ⟨hresults, hlast⟩ := ih hstate
      refine ⟨?_, hlast⟩
      simp only [operateAll, hresult, hresults]

end Operations

/-! ### What is on screen -/

/-- Two states that agree behind the screen: on everything but what is shown. The pending
    choices are not only shown, so they agree on those. -/
structure SameBackstage (s t : State) : Prop where
  pc : s.pc = t.pc
  status : s.status = t.status
  locals : s.locals = t.locals
  globals : s.globals = t.globals
  isDay : s.isDay = t.isDay
  seed : s.seed = t.seed
  choices : s.screen.choices = t.screen.choices

theorem SameBackstage.eq {s t : State} (h : SameBackstage s t) :
    t = { s with screen := t.screen } := by
  obtain ⟨pc, status, locals, globals, screen, isDay, seed⟩ := s
  obtain ⟨pc', status', locals', globals', screen', isDay', seed'⟩ := t
  obtain ⟨rfl, rfl, rfl, rfl, rfl, rfl, -⟩ := h
  rfl

/-- An action of two states that agree behind the screen leaves such states. -/
theorem SameBackstage.perform {s t : State} (h : SameBackstage s t) (settings : Settings)
    (a : Action) : SameBackstage (perform settings s a) (perform settings t a) := by
  -- All parts but the screen are written from parts that agree; of the screen only the choices
  -- have to, and an action either leaves them or publishes its own.
  have hchoices : (a.paint s.isDay s.screen).choices = (a.paint s.isDay t.screen).choices := by
    rw [paint_choices, paint_choices, h.choices]
  rw [h.eq]
  exact ⟨rfl, rfl, rfl, rfl, rfl, rfl, hchoices⟩

theorem lockstep_backstage (p : Program) (settings : Settings) :
    Lockstep p p settings settings (fun _ => True) SameBackstage where
  limit := rfl
  target _ := rfl
  pc h := h.pc
  status h := h.status
  choices h := h.choices
  moved h _ _ _ := ⟨rfl, rfl, h.locals, h.globals, h.isDay, h.seed, rfl⟩
  fresh h := ⟨h.pc, h.status, h.locals, h.globals, h.isDay, h.seed, h.choices⟩
  slot _ _ := rfl
  flow {s t a} h _ _ := by
    rw [h.eq]
    exact (flowOf_screen p settings s t.screen a).symm
  performed h _ _ := h.perform settings _

/-- What is on screen is never read. Whatever runs and inputs are applied to two states that
    agree behind the screen, all that is returned is the same: outcomes, effects, numbers of
    steps, and refusals; and the states still agree behind the screen. -/
theorem screen_unread (p : Program) (settings : Settings) {s t : State} (h : SameBackstage s t)
    (os : List Operation) :
    (operateAll p settings os s).1 = (operateAll p settings os t).1 ∧
      SameBackstage (operateAll p settings os s).2 (operateAll p settings os t).2 :=
  (lockstep_backstage p settings).operateAll_abreast h os

/-- An empty screen and a full one, in a scene that shows a known sprite again, leaves the line
    as it is, and refuses an answer before it takes one. -/
theorem screen_unread_in_scene :
    let p := Program.ofActions
      [.showSprite "Mira" none none none, .line none (some "") none, .playMusic none,
        .choice [⟨"out", "Leave"⟩], .label "out", .command "/wave", .removeSprite "Mira"]
    let full : Screen :=
      { speaker := some "Tom", content := some "Hello.", background := some "inn",
        music := some "theme", sound := some "bell", sprites := [Sprite.centered "Mira"] }
    let os : List Operation := [.run, .resume (.choose "in"), .resume (.choose "out"), .run]
    SameBackstage {} { screen := full } ∧
      (operateAll p {} os {}).1 = (operateAll p {} os { screen := full }).1 ∧
      SameBackstage (operateAll p {} os {}).2 (operateAll p {} os { screen := full }).2 := by
  intro p full os
  have hsame : SameBackstage {} { screen := full } := ⟨rfl, rfl, rfl, rfl, rfl, rfl, rfl⟩
  exact ⟨hsame, screen_unread p {} hsame os⟩

end Parley.Engine
