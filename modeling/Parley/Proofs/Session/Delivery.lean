/-
  Parley.Proofs.Session.Delivery

  What reaches the host. The effects of a run are what its actions ask of the host, in the order
  in which they are executed (`Engine.run_effects`), and a call hands the host just the effects
  of its output. So after every history the host is what all outputs together, in order, made of
  it (`after_host`): nothing is handed out twice, and nothing is lost, also where a call is
  refused or a run is aborted.

  For a ledger this is counted out: the commands it has executed are those of the outputs that
  its policy allows, and it holds of every item what it held before and what was given since, up
  to the most it can hold (`ledger_after`).
-/
import Mathlib
import Parley.Proofs.Session.Trace

namespace Parley

variable {H : Type} [Host H]

/-! ### Effects of runs -/

namespace Engine

theorem step_effects (p : Program) (settings : Settings) {s : State} (hs : Active s) :
    (step p settings s).effects = (p.action? s.pc).toList.flatMap Action.requests := by
  have hstep := step_cases p settings hs
  generalize step p settings s = t at hstep ⊢
  cases hstep with
  | ended hslot | malformed hslot =>
      rw [Program.action?, hslot]
      rfl
  | next hslot | goto hslot | await hslot | finish hslot | abort hslot =>
      rw [Program.action?_of_fetch hslot]
      exact (List.append_nil _).symm

/-- The effects that a loop adds to those that lie behind. -/
theorem loop_effects {p : Program} {settings : Settings} {limit fuel : Nat} {s : State}
    (hs : Active s) (effects : List Effect) (done : Nat) :
    (loop p settings limit fuel s effects done).2.effects =
      effects ++ (executedWithin p settings fuel s).flatMap Action.requests := by
  induction fuel generalizing s effects done with
  | zero => exact (List.append_nil effects).symm
  | succ fuel ih =>
      have hstep := step_effects p settings hs
      rw [loop, executedWithin, List.flatMap_append, ← hstep, ← List.append_assoc]
      cases houtcome : (step p settings s).outcome with
      | proceed => exact ih (step_active hs houtcome) _ _
      | awaiting | finished | aborted => exact (List.append_nil _).symm

/-- The effects of a run are what its actions ask for, in order. -/
theorem run_effects (p : Program) (settings : Settings) (s : State) :
    (run p settings s).2.effects = (executed p settings s).flatMap Action.requests := by
  rw [run, executed]
  cases hresting : restingOutcome? s.status with
  | some outcome => rfl
  | none =>
      have hs : Active { s with screen := s.screen.clearOneShots } :=
        restingOutcome?_eq_none.1 hresting
      exact loop_effects hs [] 0

end Engine

/-! ### Effects of calls -/

/-- The effects of the output that a reply carries; of a reply without output, none. -/
def Reply.effects (r : Reply) : List Effect := (r.output?.map Output.effects).getD []

theorem Reply.flatMap_effects (r : Reply) :
    r.output?.toList.flatMap Output.effects = r.effects := by
  rw [effects]
  cases r.output? with
  | none => rfl
  | some output => exact List.flatMap_singleton Output.effects output

namespace Session

open Engine

/-- The outputs that the calls of a history return, in order. -/
def outputs (s : Session H) : List Call → List Output
  | [] => []
  | c :: calls => (s.call c).2.output?.toList ++ (s.call c).1.outputs calls

/-- What a call does to the host, and what it tells the caller of it: both are the effects of
    the actions that the call executes. -/
structure Delivers (s : Session H) (c : Call) : Prop where
  effects : (s.call c).2.effects = (s.executed c).flatMap Action.requests
  host : (s.call c).1.host = Host.applyAll s.host (s.call c).2.effects

/-- A call that executes nothing and leaves the host alone. -/
theorem delivers_of_quiet {s : Session H} {c : Call} (hreply : (s.call c).2.output? = none)
    (hexecuted : s.executed c = []) (hhost : (s.call c).1.host = s.host) : s.Delivers c := by
  have hnone : (s.call c).2.effects = [] := by rw [Reply.effects, hreply]; rfl
  exact ⟨by rw [hnone, hexecuted]; rfl, by rw [hnone, hhost]; rfl⟩

/-- A call that runs on from a state. -/
theorem delivers_of_run {s : Session H} {c : Call} {r : State} (hresume : s.resumption? c = some r)
    (hcall : s.call c = ((s.runFrom r).1, .ran (s.runFrom r).2)) : s.Delivers c := by
  have heffects : (s.call c).2.effects = (Engine.run s.program s.settings r).2.effects := by
    rw [hcall]
    rfl
  refine ⟨?_, ?_⟩
  · rw [heffects, run_effects, executed, hresume]
  · rw [heffects, hcall]
    rfl

theorem start_delivers (s : Session H) : s.Delivers .start := by
  cases hstatus : s.state.status with
  | idle =>
      exact delivers_of_run (by rw [resumption?, hstatus])
        (by rw [call, start_of_active (.inl hstatus)])
  | running =>
      exact delivers_of_run (by rw [resumption?, hstatus])
        (by rw [call, start_of_active (.inr hstatus)])
  | awaiting wait =>
      -- The call returns an output, but nothing is executed for it.
      have hexecuted : s.executed .start = [] := by
        simp only [executed, resumption?, Engine.executed, hstatus, restingOutcome?]
      have hcall : s.call .start = (s, .ran (.ok ⟨.awaiting, [], 0⟩)) := by
        rw [call, start_of_awaiting hstatus]
      exact ⟨by rw [hcall, hexecuted]; rfl, by rw [hcall]; rfl⟩
  | finished reason | aborted cause =>
      have hexecuted : s.executed .start = [] := by
        simp only [executed, resumption?, Engine.executed, hstatus, restingOutcome?]
      have hcall : s.call .start = (s, .ran (.error .alreadyEnded)) := by
        rw [call, start_of_ended (by rw [hstatus]; rfl)]
      exact delivers_of_quiet (by rw [hcall]; rfl) hexecuted (by rw [hcall])

/-- An input is either refused, with nothing executed, or accepted and run on from. -/
theorem submit_delivers {s : Session H} {c : Call} (input : Input)
    (hresume : s.resumption? c = accepted? (Engine.resume s.program s.state input))
    (hcall : s.call c = ((s.submit input).1, .ran (s.submit input).2)) : s.Delivers c := by
  unfold submit at hcall
  split at hcall
  · rename_i state e heq
    have hexecuted : s.executed c = [] := by
      rw [executed, hresume, heq]
      rfl
    exact delivers_of_quiet (by rw [hcall]; rfl) hexecuted (by rw [hcall])
  · rename_i state heq
    have hfrom : s.resumption? c = some state := by
      rw [hresume, heq]
      rfl
    exact delivers_of_run hfrom hcall

/-- Every call hands the host the effects of its output, and they are those of the actions that
    it executes. -/
theorem call_delivers (s : Session H) (c : Call) : s.Delivers c := by
  cases c with
  | start => exact start_delivers s
  | choose label => exact submit_delivers (.choose label) rfl rfl
  | advance => exact submit_delivers .advance rfl rfl
  | stop => exact delivers_of_quiet rfl rfl rfl
  | setDay isDay => exact delivers_of_quiet rfl rfl rfl
  | takePending =>
      have hhost : s.takePending.1.host = s.host := by
        unfold takePending
        cases s.pending <;> rfl
      exact delivers_of_quiet rfl rfl hhost
  | saved => exact delivers_of_quiet rfl rfl rfl

end Session

/-! ### Effects of histories -/

theorem Host.applyAll_append (h : H) (as bs : List Effect) :
    Host.applyAll h (as ++ bs) = Host.applyAll (Host.applyAll h as) bs :=
  List.foldl_append

namespace Session

/-- After every history the host is what the effects of all outputs, in order, made of it. -/
theorem after_host (s : Session H) (calls : List Call) :
    (s.after calls).host = Host.applyAll s.host ((s.outputs calls).flatMap Output.effects) := by
  induction calls generalizing s with
  | nil => rfl
  | cons c calls ih =>
      rw [outputs, List.flatMap_append, Reply.flatMap_effects, Host.applyAll_append,
        ← (s.call_delivers c).host]
      exact ih (s.call c).1

/-- The effects of all outputs of a history are what the actions of its trace ask for. -/
theorem outputs_effects (s : Session H) (calls : List Call) :
    (s.outputs calls).flatMap Output.effects = (s.trace calls).flatMap Action.requests := by
  induction calls generalizing s with
  | nil => rfl
  | cons c calls ih =>
      rw [outputs, trace, List.flatMap_append, List.flatMap_append, Reply.flatMap_effects,
        (s.call_delivers c).effects, ih]

end Session

/-! ### Ledgers -/

/-- The command that an effect hands out. -/
def Effect.command? : Effect → Option String
  | .command text => some text
  | _ => none

/-- How much of an item an effect gives. -/
def Effect.given (item : String) : Effect → Nat
  | .giveItem name amount => if name = item then amount else 0
  | _ => 0

namespace Ledger

theorem count_giveItem (l : Ledger) (name item : String) (amount : Nat) :
    (l.giveItem name amount).count item =
      if name = item then min most (l.count item + amount) else l.count item := by
  unfold giveItem count
  split
  · rename_i hname
    subst hname
    rw [Table.get?_insert_self]
    rfl
  · rename_i hname
    rw [Table.get?_insert_of_ne _ (Ne.symm hname)]

@[simp] theorem runCommand_inventory (l : Ledger) (command : String) :
    (l.runCommand command).1.inventory = l.inventory := by
  unfold runCommand
  split <;> rfl

@[simp] theorem runCommand_policy (l : Ledger) (command : String) :
    (l.runCommand command).1.policy = l.policy := by
  unfold runCommand
  split <;> rfl

theorem runCommand_executed (l : Ledger) (command : String) :
    (l.runCommand command).1.executed = l.executed ++ [command].filter l.policy.allows := by
  unfold runCommand
  split
  · rename_i h
    rw [List.filter_cons_of_pos h]
    rfl
  · rename_i h
    rw [List.filter_cons_of_neg h]
    exact (List.append_nil _).symm

/-! One effect changes no policy, runs a command if that is allowed, and counts up one item. -/

theorem policy_apply (l : Ledger) (e : Effect) : (Host.apply l e).policy = l.policy := by
  cases e with
  | command text => exact runCommand_policy l text
  | giveItem item amount => rfl
  | checkpoint label => rfl

theorem executed_apply (l : Ledger) (e : Effect) :
    (Host.apply l e).executed =
      l.executed ++ ([e].filterMap Effect.command?).filter l.policy.allows := by
  cases e with
  | command text => exact runCommand_executed l text
  | giveItem item amount => exact (List.append_nil _).symm
  | checkpoint label => exact (List.append_nil _).symm

/-- No item is held beyond the most that can be. -/
def Holdable (l : Ledger) : Prop := ∀ item, l.count item ≤ most

theorem count_apply {l : Ledger} (h : l.Holdable) (e : Effect) (item : String) :
    (Host.apply l e).count item = min most (l.count item + e.given item) := by
  have hheld : l.count item = min most (l.count item + 0) := (Nat.min_eq_right (h item)).symm
  cases e with
  | giveItem name amount =>
      show (l.giveItem name amount).count item = _
      rw [count_giveItem, Effect.given]
      split
      · rfl
      · exact hheld
  | command text =>
      have hcount : (l.runCommand text).1.count item = l.count item := by
        rw [count, runCommand_inventory, count]
      exact hcount.trans hheld
  | checkpoint label => exact hheld

/-- What some effects make of a ledger: the commands that were allowed are entered in order, and
    every item is counted up to the most that can be held. -/
structure Receives (l : Ledger) (effects : List Effect) (l' : Ledger) : Prop where
  policy : l'.policy = l.policy
  executed : l'.executed = l.executed ++ (effects.filterMap Effect.command?).filter l.policy.allows
  count (item : String) :
    l'.count item = min most (l.count item + (effects.map (Effect.given item)).sum)

theorem Receives.holdable {l l' : Ledger} {effects : List Effect} (h : l.Receives effects l') :
    l'.Holdable := by
  intro item
  rw [h.count item]
  exact Nat.min_le_left _ _

theorem Receives.nil {l : Ledger} (h : l.Holdable) : l.Receives [] l where
  policy := rfl
  executed := (List.append_nil _).symm
  count item := (Nat.min_eq_right (h item)).symm

/-- Counting up to a bound in two parts is counting up to it at once. -/
theorem Receives.append {l l' l'' : Ledger} {as bs : List Effect} (ha : l.Receives as l')
    (hb : l'.Receives bs l'') : l.Receives (as ++ bs) l'' where
  policy := hb.policy.trans ha.policy
  executed := by
    rw [hb.executed, ha.executed, ha.policy, List.append_assoc, List.filterMap_append,
      List.filter_append]
  count item := by
    have hfirst := ha.count item
    have hsecond := hb.count item
    rw [List.map_append, List.sum_append]
    omega

theorem receives_one {l : Ledger} (h : l.Holdable) (e : Effect) :
    l.Receives [e] (Host.apply l e) where
  policy := policy_apply l e
  executed := executed_apply l e
  count item := by
    rw [count_apply h]
    rfl

/-- What a list of effects makes of a ledger, by the effects one after another. -/
theorem receives_all {l : Ledger} (h : l.Holdable) (effects : List Effect) :
    l.Receives effects (Host.applyAll l effects) := by
  induction effects generalizing l with
  | nil => exact .nil h
  | cons e effects ih =>
      have hone := receives_one h e
      exact hone.append (ih hone.holdable)

end Ledger

namespace Session

/-- A host that keeps a ledger gets every effect once and in order. After every history, with
    the effects of all outputs that were returned, one after another:

      * the ledger has executed the commands among them that its policy allows, in order;
      * it holds of every item what it held before and what they gave, up to the most it can hold.

    And the effects of the output of the next call, if it has one, are those that the actions
    executed by this call ask for, in order. -/
theorem ledger_after (s : Session Ledger) (calls : List Call)
    (hheld : ∀ item, s.host.count item ≤ Ledger.most) :
    s.host.Receives ((s.outputs calls).flatMap Output.effects) (s.after calls).host ∧
      ∀ (c : Call) (output : Output), ((s.after calls).call c).2 = .ran (.ok output) →
        output.effects = ((s.after calls).executed c).flatMap Action.requests := by
  refine ⟨?_, ?_⟩
  · rw [after_host]
    exact Ledger.receives_all hheld _
  · intro c output houtput
    have heffects := ((s.after calls).call_delivers c).effects
    rw [houtput] at heffects
    exact heffects

/-- A session with a refused command, a start while it waits, an answer and a going on that are
    refused, more coins than can be held, and an abort right after the last effect. -/
theorem ledger_after_abort :
    let program := Program.ofActions
      [.giveItem "coin" 2, .command "/op me", .command " /say hi", .choice [⟨"out", "Leave"⟩],
        .label "out", .giveItem "coin" 5, .giveItem "gem" 1, .checkpoint (some "out"),
        .transition "jump" none]
    let l : Ledger := ⟨.ofList [("coin", 18446744073709551612)], {}, ["/hello"]⟩
    let s := ofBook program ⟨⟨"villager", "Mira"⟩, "player", true⟩ l {} {} 0
    let calls := [.start, .start, .choose "in", .advance, .choose "out", .start]
    let l' := (s.after calls).host
    (∀ item, s.host.count item ≤ Ledger.most) ∧ l'.executed = ["/hello", " /say hi"] ∧
      l'.count "coin" = Ledger.most ∧ l'.count "gem" = 1 := by
  intro program l s calls l'
  have hheld : ∀ item, l.count item ≤ Ledger.most := by
    intro item
    have hcount : l.count item = if "coin" = item then 18446744073709551612 else 0 := by
      show (Table.find item [("coin", 18446744073709551612)]).getD 0 = _
      rw [Table.find]
      split <;> rfl
    rw [hcount]
    split <;> decide
  obtain ⟨hreceives, -⟩ := ledger_after s calls hheld
  have heffects : (s.outputs calls).flatMap Output.effects =
      [.giveItem "coin" 2, .command "/op me", .command " /say hi", .giveItem "coin" 5,
        .giveItem "gem" 1, .checkpoint (some "out")] := by decide +kernel
  rw [heffects] at hreceives
  have hexecuted : l'.executed = ["/hello", " /say hi"] := by
    rw [hreceives.executed]
    decide +kernel
  have hcoin : l'.count "coin" = Ledger.most := by
    rw [hreceives.count]
    decide +kernel
  have hgem : l'.count "gem" = 1 := by
    rw [hreceives.count]
    decide +kernel
  exact ⟨hheld, hexecuted, hcoin, hgem⟩

end Session

end Parley
