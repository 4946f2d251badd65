/-
  Parley.Proofs.Session.Aborting

  What an abort says, and what it leaves behind. A step aborts for one of three reasons, the cases
  of `Failed`: the record at its position does not read, the action there lacks a part that it
  cannot be executed without (`Action.Lacks`), or the label that the action seeks does not resolve
  (`Engine.Seeks`). In each case the step does nothing else. Only an idle chat has drawn by then,
  so the seed may have moved on.

  The cause names the position where it was met. The session stays there, also if it was the
  answer to a choice that led nowhere, so the position in the cause and that of the session agree
  after every history (`after_abortedInPlace`).
-/
import Parley.Proofs.Program.Labels
import Parley.Proofs.Session.History

namespace Parley

variable {H : Type} [Host H]

/-- The position that a cause names. Running too long is the fault of no position. -/
def Abort.position? : Abort → Option Nat
  | .malformedAction position _ _ => some position
  | .unresolvedLabel _ position => some position
  | .stepLimit _ => none

/-- The actions without a part that they cannot be executed without, with the reason that is
    given. -/
inductive Action.Lacks : Action → String → Prop where
  | var {action : Option String} {init : Value}
      (haction : action = some "create_var" ∨ action = some "create_global") :
      Lacks (.note action none init) "missing field `var`"
  | label : Lacks (.transition "jump" none) "missing field `label`"
  | options : Lacks (.choice []) "choice list is empty"

namespace Engine

variable {p : Program} {settings : Settings} {s : State} {a : Action}

/-- The label that an action goes to at once: a jump names it, an idle chat draws it. -/
inductive Seeks (settings : Settings) (s : State) : Action → String → Prop where
  | jump {label : String} : Seeks settings s (.transition "jump" (some label)) label
  | chat {label : String} {seed : UInt64}
      (hdraw : drawEvent settings s.locals s.seed = some (label, seed)) :
      Seeks settings s .idleChat label

/-! ### Actions that abort -/

theorem flowOf_of_lacks {reason : String} (h : a.Lacks reason) :
    flowOf p settings s a = .abort (.malformedAction s.pc a.tag reason) := by
  cases h with
  | var haction => rw [flowOf, if_pos ⟨haction, rfl⟩, Action.tag]
  | label => rfl
  | options => rfl

theorem flowOf_of_seeks {label : String} (h : Seeks settings s a label)
    (htarget : p.target label = none) :
    flowOf p settings s a = .abort (.unresolvedLabel label s.pc) := by
  have hjump : jump p label s.pc = .abort (.unresolvedLabel label s.pc) := by
    rw [jump, htarget]
  cases h with
  | jump => simp only [flowOf, if_true, hjump]
  | chat hdraw => rw [flowOf, hdraw, Option.map_some, Option.getD_some, hjump]

/-- An action aborts only because it lacks something or because its label does not resolve. -/
theorem abort_cases {cause : Abort} (h : flowOf p settings s a = .abort cause) :
    (∃ reason, a.Lacks reason ∧ cause = .malformedAction s.pc a.tag reason) ∨
      ∃ label, Seeks settings s a label ∧ p.target label = none ∧
        cause = .unresolvedLabel label s.pc := by
  have hleads := leads_flowOf p settings s a
  rw [h] at hleads
  -- Of the ways on, five abort: two seek a label that does not resolve, three lack a part.
  cases hleads with
  | jumpLost htarget => exact .inr ⟨_, .jump, htarget, rfl⟩
  | chatLost hdraw htarget => exact .inr ⟨_, .chat hdraw, htarget, rfl⟩
  | noName haction => exact .inl ⟨_, .var haction, rfl⟩
  | noLabel => exact .inl ⟨_, .label, rfl⟩
  | noOptions => exact .inl ⟨_, .options, rfl⟩

/-- What an action aborts with names the position of the state. -/
theorem position_of_abort {cause : Abort} (h : flowOf p settings s a = .abort cause) :
    cause.position? = some s.pc := by
  rcases abort_cases h with ⟨reason, -, rfl⟩ | ⟨label, -, -, rfl⟩
  · rfl
  · rfl

/-- An action that lacks something is not performed. -/
theorem perform_of_lacks (settings : Settings) (s : State) {reason : String}
    (h : a.Lacks reason) :
    perform settings s a = { s with status := .running } ∧ a.requests = [] := by
  cases h with
  | var haction =>
      -- Whichever scope is to get the variable, there is no name to put it under.
      rcases haction with rfl | rfl <;> exact ⟨rfl, rfl⟩
  | label => exact ⟨rfl, rfl⟩
  | options => exact ⟨rfl, rfl⟩

/-- An action that seeks a label does nothing but draw. -/
theorem perform_of_seeks {label : String} (h : Seeks settings s a label) :
    perform settings s a =
        { s with status := .running, seed := reseed settings s.locals s.seed a } ∧
      a.requests = [] := by
  cases h <;> exact ⟨rfl, rfl⟩

/-! ### Steps that abort -/

/-- What a step can be that aborts. -/
inductive Failed (p : Program) (settings : Settings) (s : State) : Transition → Prop where
  | malformed {tag reason : String} (hslot : p.fetch s.pc = .malformed tag reason) :
      Failed p settings s
        ⟨{ s with status := .aborted (.malformedAction s.pc tag reason) },
          .aborted (.malformedAction s.pc tag reason), []⟩
  | lacks {a : Action} {reason : String} (hslot : p.fetch s.pc = .action a)
      (hlacks : a.Lacks reason) :
      Failed p settings s
        ⟨{ s with status := .aborted (.malformedAction s.pc a.tag reason) },
          .aborted (.malformedAction s.pc a.tag reason), []⟩
  | lost {a : Action} {label : String} (hslot : p.fetch s.pc = .action a)
      (hseeks : Seeks settings s a label) (htarget : p.target label = none) :
      Failed p settings s
        ⟨{ s with
            status := .aborted (.unresolvedLabel label s.pc)
            seed := reseed settings s.locals s.seed a },
          .aborted (.unresolvedLabel label s.pc), []⟩

theorem step_of_lacks {reason : String} (hs : Active s) (hslot : p.fetch s.pc = .action a)
    (hlacks : a.Lacks reason) :
    step p settings s =
      ⟨{ s with status := .aborted (.malformedAction s.pc a.tag reason) },
        .aborted (.malformedAction s.pc a.tag reason), []⟩ := by
  obtain ⟨hstate, hrequests⟩ := perform_of_lacks settings s hlacks
  rw [step_of_action hs hslot, flowOf_of_lacks hlacks, hstate, hrequests]
  rfl

theorem step_of_lost {label : String} (hs : Active s) (hslot : p.fetch s.pc = .action a)
    (hseeks : Seeks settings s a label) (htarget : p.target label = none) :
    step p settings s =
      ⟨{ s with
          status := .aborted (.unresolvedLabel label s.pc)
          seed := reseed settings s.locals s.seed a },
        .aborted (.unresolvedLabel label s.pc), []⟩ := by
  obtain ⟨hstate, hrequests⟩ := perform_of_seeks hseeks
  rw [step_of_action hs hslot, flowOf_of_seeks hseeks htarget, hstate, hrequests]
  rfl

theorem failed_of_abort {cause : Abort} (hs : Active s)
    (h : (step p settings s).outcome = .aborted cause) :
    Failed p settings s (step p settings s) := by
  have hstep := step_cases p settings hs
  generalize htransition : step p settings s = t at hstep h
  cases hstep with
  | ended | next | goto | await | finish => cases h
  | malformed hslot => exact .malformed hslot
  | abort hslot hflow =>
      -- Why the action aborts also says that it is not performed, so the step is known in full.
      rcases abort_cases hflow with ⟨reason, hlacks, -⟩ | ⟨label, hseeks, htarget, -⟩
      · rw [← htransition, step_of_lacks hs hslot hlacks]
        exact .lacks hslot hlacks
      · rw [← htransition, step_of_lost hs hslot hseeks htarget]
        exact .lost hslot hseeks htarget

/-- A step that aborts asks for nothing, and changes the status alone; only an idle chat whose
    label does not resolve leaves another seed. -/
theorem Failed.frame {t : Transition} {cause : Abort} (h : Failed p settings s t)
    (hcause : t.outcome = .aborted cause) :
    t.effects = [] ∧ t.state = { s with status := .aborted cause, seed := t.state.seed } ∧
      (t.state.seed ≠ s.seed →
        p.fetch s.pc = .action .idleChat ∧ ∃ label,
          drawEvent settings s.locals s.seed = some (label, t.state.seed) ∧
            p.resolve label = none) := by
  cases h with
  | malformed hslot =>
      cases hcause
      exact ⟨rfl, rfl, fun hseed => absurd rfl hseed⟩
  | lacks hslot hlacks =>
      cases hcause
      exact ⟨rfl, rfl, fun hseed => absurd rfl hseed⟩
  | @lost a label hslot hseeks htarget =>
      cases hcause
      refine ⟨rfl, rfl, ?_⟩
      intro hseed
      cases hseeks with
      | jump => exact absurd rfl hseed
      | @chat label seed hdraw =>
          have hnext : reseed settings s.locals s.seed .idleChat = seed := by
            rw [reseed, hdraw, Option.map_some, Option.getD_some]
          refine ⟨hslot, label, ?_, Program.target_eq_none_iff.1 htarget⟩
          rw [hdraw, hnext]

/-- A malformed action is reported where the state is: for a record that does not read, with its
    tag and reason, and for an action that lacks something. -/
theorem outcome_eq_malformed_iff (hs : Active s) {position : Nat} {tag reason : String} :
    (step p settings s).outcome = .aborted (.malformedAction position tag reason) ↔
      position = s.pc ∧
        (p.fetch s.pc = .malformed tag reason ∨
          ∃ a, p.fetch s.pc = .action a ∧ a.tag = tag ∧ a.Lacks reason) := by
  constructor
  · intro h
    have hfailed := failed_of_abort hs h
    generalize step p settings s = t at hfailed h
    cases hfailed with
    | malformed hslot =>
        cases h
        exact ⟨rfl, .inl hslot⟩
    | @lacks a _ hslot hlacks =>
        cases h
        exact ⟨rfl, .inr ⟨a, hslot, rfl, hlacks⟩⟩
    | lost => cases h
  · rintro ⟨rfl, hslot | ⟨a, hslot, rfl, hlacks⟩⟩
    · rw [step_of_malformed hs hslot]
    · rw [step_of_lacks hs hslot hlacks]

/-- An unresolved label is reported where the state is, for an action that seeks it. -/
theorem outcome_eq_unresolved_iff (hs : Active s) {label : String} {position : Nat} :
    (step p settings s).outcome = .aborted (.unresolvedLabel label position) ↔
      position = s.pc ∧ p.resolve label = none ∧
        ∃ a, p.fetch s.pc = .action a ∧ Seeks settings s a label := by
  constructor
  · intro h
    have hfailed := failed_of_abort hs h
    generalize step p settings s = t at hfailed h
    cases hfailed with
    | malformed | lacks => cases h
    | @lost a _ hslot hseeks htarget =>
        cases h
        exact ⟨rfl, Program.target_eq_none_iff.1 htarget, a, hslot, hseeks⟩
  · rintro ⟨rfl, hresolve, a, hslot, hseeks⟩
    rw [step_of_lost hs hslot hseeks (Program.target_eq_none_iff.2 hresolve)]

/-! ### The position of an abort -/

/-- What a step aborts with names the position where the step began. -/
theorem step_position {cause : Abort} (hs : Active s)
    (h : (step p settings s).outcome = .aborted cause) : cause.position? = some s.pc := by
  have hstep := step_cases p settings hs
  generalize step p settings s = t at hstep h
  cases hstep with
  | ended | next | goto | await | finish => cases h
  | malformed hslot =>
      cases h
      rfl
  | abort hslot hflow =>
      cases h
      exact position_of_abort hflow

/-- A cause that names a position names the one where the state is. -/
def AbortedInPlace (s : State) : Prop :=
  ∀ cause position, s.status = .aborted cause → cause.position? = some position →
    position = s.pc

/-- A state whose status names no position. -/
theorem abortedInPlace_of_ne
    (h : ∀ cause, s.status = .aborted cause → cause.position? = none) : AbortedInPlace s := by
  intro cause position hstatus hposition
  rw [h cause hstatus] at hposition
  cases hposition

theorem step_abortedInPlace (hs : Active s) : AbortedInPlace (step p settings s).state := by
  have hstep := step_cases p settings hs
  generalize step p settings s = t at hstep ⊢
  cases hstep with
  | ended | next | goto | await | finish => exact abortedInPlace_of_ne nofun
  | malformed hslot =>
      intro cause position hstatus hposition
      cases hstatus
      exact (Option.some.inj hposition).symm
  | abort hslot hflow =>
      intro cause position hstatus hposition
      cases hstatus
      rw [position_of_abort hflow] at hposition
      exact (Option.some.inj hposition).symm

theorem run_abortedInPlace (hs : Active s) : AbortedInPlace (run p settings s).1 := by
  refine run_induction Active (fun t _ => AbortedInPlace t) (fun t => step_active) ?_ ?_ hs hs
  · exact fun t ht _ => step_abortedInPlace ht
  · -- A run that is too long stops anywhere.
    intro t limit _
    refine abortedInPlace_of_ne ?_
    rintro cause hstatus
    cases hstatus
    rfl

theorem AbortedInPlace.moved {s' : State} {output : Option Output} (h : AbortedInPlace s)
    (hmoved : Moved p settings s s' output) : AbortedInPlace s' := by
  cases hmoved with
  | same | wait | day => exact h
  | stop => exact abortedInPlace_of_ne nofun
  | lose =>
      -- The answer is given where the choice stands, and the session stays there.
      intro cause position hstatus hposition
      cases hstatus
      exact (Option.some.inj hposition).symm
  | run hresumed => exact run_abortedInPlace hresumed.active

end Engine

namespace Session

open Engine

theorem after_abortedInPlace (program : Program) (identity : Identity) (host : H) (book : Book)
    (settings : Settings) (entropy : UInt64) (calls : List Call) :
    AbortedInPlace ((ofBook program identity host book settings entropy).after calls).state := by
  have hopened : AbortedInPlace (ofBook program identity host book settings entropy).state :=
    abortedInPlace_of_ne nofun
  exact after_induction (fun _ _ _ h hmoved => h.moved hmoved) hopened calls

/-- An abort is reported exactly, and does no damage. A step that aborts has no effects and
    changes nothing but the status, and the seed where an idle chat drew a label that does not
    resolve. It reports a malformed action at its own position if and only if the record there
    does not read, with the tag and the reason of that record, or the action there lacks something:
    a creation its variable, a jump its label, a choice its options. It reports an unresolved label
    if and only if the action there seeks a label that does not resolve. It never runs too long.
    And after every history, a session that was aborted is where the cause says. -/
theorem abort_reported (program : Program) (settings : Settings) :
    (∀ s, Active s →
      let t := step program settings s
      (∀ cause, t.outcome = .aborted cause →
        t.effects = [] ∧ t.state = { s with status := .aborted cause, seed := t.state.seed } ∧
        (t.state.seed ≠ s.seed →
          program.fetch s.pc = .action .idleChat ∧ ∃ label,
            drawEvent settings s.locals s.seed = some (label, t.state.seed) ∧
              program.resolve label = none)) ∧
      (∀ position tag reason, t.outcome = .aborted (.malformedAction position tag reason) ↔
        position = s.pc ∧
          (program.fetch s.pc = .malformed tag reason ∨
            ∃ a, program.fetch s.pc = .action a ∧ a.tag = tag ∧ a.Lacks reason)) ∧
      (∀ label position, t.outcome = .aborted (.unresolvedLabel label position) ↔
        position = s.pc ∧ program.resolve label = none ∧
          ∃ a, program.fetch s.pc = .action a ∧ Seeks settings s a label) ∧
      ∀ limit, t.outcome ≠ .aborted (.stepLimit limit)) ∧
    ∀ (identity : Identity) (host : H) (book : Book) (entropy : UInt64) (calls : List Call),
      let s := ((ofBook program identity host book settings entropy).after calls).state
      ∀ cause position, s.status = .aborted cause → cause.position? = some position →
        position = s.pc := by
  refine ⟨?_, fun identity host book entropy calls =>
    after_abortedInPlace program identity host book settings entropy calls⟩
  intro s hs t
  refine ⟨?_, ?_, ?_, ?_⟩
  · intro cause hcause
    exact (failed_of_abort hs hcause).frame hcause
  · exact fun position tag reason => outcome_eq_malformed_iff hs
  · exact fun label position => outcome_eq_unresolved_iff hs
  · intro limit hlimit
    have hposition := step_position hs hlimit
    cases hposition

/-- A label that no record defines, unlocked and offered as an answer: the idle chat that draws it
    moves the seed and nothing else, and the session that gives it as an answer stays at the
    choice. -/
theorem abort_reported_by_chat :
    let program := Program.ofActions
      [.choice [⟨"sea", "Sail"⟩, ⟨"inn", "Stay"⟩], .label "inn", .unlock ["sea"], .idleChat]
    let chatting : State :=
      { pc := 3, status := .running, seed := 7
        locals := Table.empty.insert "unlocked_events" (.list ["sea"]) }
    let t := step program {} chatting
    let s := ((ofBook program ⟨⟨"villager", "Mira"⟩, "player-1", true⟩ SilentHost.silent {} {}
      0).after [.start, .choose "sea"]).state
    Active chatting ∧ t.outcome = .aborted (.unresolvedLabel "sea" 3) ∧ t.effects = [] ∧
      t.state = { chatting with
        status := .aborted (.unresolvedLabel "sea" 3), seed := t.state.seed } ∧
      t.state.seed ≠ chatting.seed ∧ program.resolve "sea" = none ∧
      s.status = .aborted (.unresolvedLabel "sea" 0) ∧ s.pc = 0 := by
  intro program chatting t s
  have hactive : Active chatting := .inr rfl
  have houtcome : t.outcome = .aborted (.unresolvedLabel "sea" 3) := by decide +kernel
  have hseed : t.state.seed ≠ chatting.seed := by decide +kernel
  have hstatus : s.status = .aborted (.unresolvedLabel "sea" 0) := by decide +kernel
  obtain ⟨hsteps, hsessions⟩ := abort_reported (H := SilentHost) program {}
  have hpc : 0 = s.pc :=
    hsessions ⟨⟨"villager", "Mira"⟩, "player-1", true⟩ .silent {} 0 [.start, .choose "sea"] _ 0
      hstatus rfl
  -- From here on the step is any step that reports this, so that no draw is computed again.
  have hchat := hsteps chatting hactive
  have ht : step program {} chatting = t := rfl
  rw [ht] at hchat
  clear_value t
  obtain ⟨hframe, -, hunresolved, -⟩ := hchat
  obtain ⟨heffects, hstate, -⟩ := hframe _ houtcome
  obtain ⟨-, hresolve, -⟩ := (hunresolved "sea" 3).1 houtcome
  exact ⟨hactive, houtcome, heffects, hstate, hseed, hresolve, hstatus, hpc.symm⟩

end Session

end Parley
