/-
  Parley.Proofs.Session.Forward

  Scripts that only go forward end on their own. In a forward program no action leads back
  (`Action.leadsOn`): a conditional and a jump go on past their own position, wherever that is, and
  nothing is drawn. Every other action goes on to the next position anyway.

  So a step that goes on moves the position up (`Program.Forward.step_lt`), and it began inside the
  program. What lies ahead of the position gets shorter with every step, and a run can go on at most
  as often as there are slots ahead. One more step ends it, since past the last slot the script is
  over. An answer may lead back as far as it likes: it begins a new run.
-/
import Parley.Proofs.Engine.Trace
import Parley.Proofs.Session.Aborting
import Parley.Proofs.Session.Lifecycle
import Parley.Proofs.Session.Position

namespace Parley

variable {H : Type} [Host H]

/-- Whether an action at a position goes on past it, if it goes on. A jump to a label that does not
    resolve does not go on. -/
def Action.leadsOn (p : Program) (position : Nat) : Action → Bool
  | .idleChat => false
  | .whenLocal c | .whenGlobal c => position < c.otherwise
  | .transition action name =>
    action != "jump" || name.all fun name => (p.resolve name).all (position < ·)
  | _ => true

/-- No action of the program leads back. -/
def Program.Forward (p : Program) : Prop :=
  ∀ position a, p.fetch position = .action a → a.leadsOn p position = true

instance (p : Program) : Decidable p.Forward :=
  -- An action is only fetched inside the program.
  decidable_of_iff (∀ position < p.size, ∀ a ∈ p.action? position, a.leadsOn p position = true)
    ⟨fun h position a hslot =>
      h position (Program.fetch_lt hslot) a (Program.action?_of_fetch hslot),
    fun h position _ a ha => h position a (Program.action?_eq_some_iff.1 ha)⟩

/-- Whether the script itself came to the outcome: it waits, has ended, or was aborted for anything
    but its length. -/
def Outcome.InTime : Outcome → Prop
  | .proceed | .aborted (.stepLimit _) => False
  | .awaiting | .finished | .aborted _ => True

theorem Outcome.InTime.of_position {cause : Abort} {position : Nat}
    (h : cause.position? = some position) : (Outcome.aborted cause).InTime := by
  cases cause with
  | malformedAction | unresolvedLabel => trivial
  | stepLimit limit => cases h

/-- What ended in time does not show as too long. -/
theorem Outcome.InTime.status_ne {outcome : Outcome} {status : Status} (h : outcome.InTime)
    (hreports : outcome.Reports status) (limit : Nat) :
    status ≠ .aborted (.stepLimit limit) := by
  rintro rfl
  cases outcome with
  | proceed | awaiting | finished => exact hreports
  | aborted cause =>
      have hcause : cause = .stepLimit limit := hreports
      rw [hcause] at h
      exact h

namespace Engine

variable {p : Program} {settings : Settings} {s : State}

/-! ### Steps -/

/-- Where a forward program goes on at once lies past the position. -/
theorem lt_of_goto {a : Action} {target : Nat} (hleads : a.leadsOn p s.pc = true)
    (hflow : flowOf p settings s a = .goto target) : s.pc < target := by
  have hcases := leads_flowOf p settings s a
  rw [hflow] at hcases
  cases hcases with
  | skipLocal => exact of_decide_eq_true hleads
  | skipGlobal => exact of_decide_eq_true hleads
  | @jump label _ htarget =>
      -- A jump goes on just past its label, which already lies ahead.
      obtain ⟨position, hresolve, rfl⟩ := Option.map_eq_some_iff.1 htarget
      have hlt : s.pc < position := by simpa [Action.leadsOn, hresolve] using hleads
      exact Nat.lt_succ_of_lt hlt
  | chat => cases hleads

/-- A step that does not go on is the end of the run in time. -/
theorem step_inTime (hs : Active s) (hstop : (step p settings s).outcome ≠ .proceed) :
    (step p settings s).outcome.InTime := by
  cases houtcome : (step p settings s).outcome with
  | proceed => exact absurd houtcome hstop
  | awaiting | finished => trivial
  | aborted cause => exact .of_position (step_position hs houtcome)

end Engine

/-! ### Forward programs -/

namespace Program.Forward

open Engine

variable {p : Program} {settings : Settings} {s : State}

/-- A step of a forward program that goes on moves up, from inside the program. -/
theorem step_lt (h : p.Forward) (hs : Active s)
    (hgo : (step p settings s).outcome = .proceed) :
    s.pc < (step p settings s).state.pc ∧ s.pc < p.size := by
  have hstep := step_cases p settings hs
  generalize step p settings s = t at hstep hgo ⊢
  cases hstep with
  | ended | malformed | await | finish | abort => cases hgo
  | next hslot => exact ⟨Nat.lt_succ_self s.pc, Program.fetch_lt hslot⟩
  | goto hslot hflow => exact ⟨lt_of_goto (h s.pc _ hslot) hflow, Program.fetch_lt hslot⟩

/-- With what lies ahead as the measure: the loop takes at most one step more, and with fuel for
    them it ends in time. -/
theorem loop_inTime (h : p.Forward) (settings : Settings) (limit fuel : Nat) (hs : Active s)
    (effects : List Effect) (done : Nat) :
    (loop p settings limit fuel s effects done).2.steps ≤ done + (p.size - s.pc + 1) ∧
      (p.size - s.pc < fuel → (loop p settings limit fuel s effects done).2.outcome.InTime) := by
  induction fuel generalizing s effects done with
  | zero => exact ⟨Nat.le_add_right _ _, fun hfuel => absurd hfuel (Nat.not_lt_zero _)⟩
  | succ fuel ih =>
      rw [loop]
      split
      · -- The step went on, so there is less ahead for the rest.
        rename_i hgo
        obtain ⟨hup, hinside⟩ := h.step_lt hs hgo
        obtain ⟨hsteps, hend⟩ :=
          ih (step_active hs hgo) (effects ++ (step p settings s).effects) (done + 1)
        exact ⟨by omega, fun hfuel => hend (by omega)⟩
      · rename_i hstop
        exact ⟨by simp only; omega, fun _ => step_inTime hs hstop⟩

theorem run_inTime (h : p.Forward) (hs : Active s) :
    (run p settings s).2.steps ≤ p.size - s.pc + 1 ∧
      (p.size - s.pc < settings.maxSteps → (run p settings s).2.outcome.InTime) := by
  have hfresh : Active { s with screen := s.screen.clearOneShots } := hs
  have hloop := h.loop_inTime settings settings.maxSteps settings.maxSteps hfresh [] 0
  rw [Nat.zero_add] at hloop
  rw [run, restingOutcome?_eq_none.2 hs]
  exact hloop

/-- Every output of a call is in time, with steps for the whole program allowed. -/
theorem moved_inTime (h : p.Forward) (hsteps : p.size < settings.maxSteps) {s' : State}
    {output : Output} (hmoved : Moved p settings s s' (some output)) : output.outcome.InTime := by
  cases hmoved with
  | wait => trivial
  | run hresumed =>
      -- Wherever the run begins, there are no more slots ahead than there are.
      exact (h.run_inTime hresumed.active).2
        (Nat.lt_of_le_of_lt (Nat.sub_le _ _) hsteps)

theorem moved_status (h : p.Forward) (hsteps : p.size < settings.maxSteps) {s' : State}
    {output : Option Output} (hs : ∀ limit, s.status ≠ .aborted (.stepLimit limit))
    (hmoved : Moved p settings s s' output) (limit : Nat) :
    s'.status ≠ .aborted (.stepLimit limit) := by
  cases hmoved with
  | same | wait | day => exact hs limit
  | stop | lose => nofun
  | run hresumed =>
      have hinTime := h.moved_inTime hsteps (.run hresumed)
      exact hinTime.status_ne (run_reports p settings hresumed.active) limit

end Program.Forward

namespace Session

open Engine

/-- Forward scripts end on their own. If no conditional and no jump of a program leads back, and
    nothing is drawn, then a run takes at most one step more than there are slots ahead of its
    position, and if that many are allowed it is not aborted for its length. So with one step more
    allowed than the program has slots, no session of it is ever aborted for the length of a run,
    and no output says so, whatever its book holds and whatever is called. -/
theorem forward_ends_in_time (program : Program) (hforward : program.Forward) :
    (∀ (settings : Settings) (s : State), Active s →
      (Engine.run program settings s).2.steps ≤ program.size - s.pc + 1 ∧
      (program.size - s.pc + 1 ≤ settings.maxSteps →
        (Engine.run program settings s).2.outcome.InTime)) ∧
    ∀ (identity : Identity) (host : H) (book : Book) (settings : Settings) (entropy : UInt64)
      (calls : List Call), program.size + 1 ≤ settings.maxSteps →
      let s := (ofBook program identity host book settings entropy).after calls
      (∀ limit, s.state.status ≠ .aborted (.stepLimit limit)) ∧
      ∀ (c : Call) (output : Output), (s.call c).2 = .ran (.ok output) →
        output.outcome.InTime := by
  refine ⟨fun settings s hs => hforward.run_inTime hs, ?_⟩
  intro identity host book settings entropy calls hsteps s
  obtain ⟨hprogram, hsettings⟩ :=
    after_fixed (ofBook program identity host book settings entropy) calls
  refine ⟨?_, ?_⟩
  · have hopened : ∀ limit,
        (ofBook program identity host book settings entropy).state.status ≠
          .aborted (.stepLimit limit) := nofun
    exact after_induction (P := fun t => ∀ limit, t.status ≠ .aborted (.stepLimit limit))
      (fun _ _ _ ht hmoved => hforward.moved_status hsteps ht hmoved) hopened calls
  · intro c output houtput
    have hmoved := call_moved s c
    rw [houtput, hprogram, hsettings] at hmoved
    exact hforward.moved_inTime hsteps hmoved

/-- A conditional that goes on far past the end, and a jump to a label that is defined on both
    sides of it. The session begins past the end of its script, at the counter of its record; a
    fresh one waits at a choice, whose answer leads back. -/
theorem forward_ends_in_time_far :
    let far : Condition := ⟨none, .night, .null, 100⟩
    let program := Program.ofActions
      [.label "inn", .transition "jump" (some "inn"), .whenLocal far, .label "inn",
        .choice [⟨"inn", "Stay"⟩]]
    let identity : Identity := ⟨⟨"villager", "Mira"⟩, "player-1", true⟩
    let book : Book := ⟨[], [⟨⟨"villager", "Mira"⟩, "player-1", 50, none⟩]⟩
    let settings : Settings := { maxSteps := 6 }
    let calls : List Call := [.start, .choose "inn", .choose "inn"]
    let s := (ofBook program identity SilentHost.silent {} settings 0).after calls
    let t := (ofBook program identity SilentHost.silent book settings 0).after [.start]
    program.Forward ∧ program.size + 1 ≤ settings.maxSteps ∧
      (Engine.run program settings {}).2.steps = 3 ∧
      (Engine.run program settings {}).2.outcome.InTime ∧
      s.state.status = .awaiting .choice ∧ t.state.pc = 50 ∧
      (∀ limit, s.state.status ≠ .aborted (.stepLimit limit)) ∧
      ∀ limit, t.state.status ≠ .aborted (.stepLimit limit) := by
  intro far program identity book settings calls s t
  have hforward : program.Forward := by decide +kernel
  have hsteps : program.size + 1 ≤ settings.maxSteps := by decide +kernel
  obtain ⟨hruns, hsessions⟩ := forward_ends_in_time (H := SilentHost) program hforward
  have hrun := (hruns settings {} (.inl rfl)).2 (by decide +kernel)
  have hs : s = (ofBook program identity SilentHost.silent {} settings 0).after calls := rfl
  have ht : t = (ofBook program identity SilentHost.silent book settings 0).after [.start] := rfl
  obtain ⟨hstatus, -⟩ := hsessions identity SilentHost.silent {} settings 0 calls hsteps
  obtain ⟨hstatus', -⟩ := hsessions identity SilentHost.silent book settings 0 [.start] hsteps
  rw [← hs] at hstatus
  rw [← ht] at hstatus'
  exact ⟨hforward, hsteps, by decide +kernel, hrun, by decide +kernel, by decide +kernel,
    hstatus, hstatus'⟩

end Session

end Parley
