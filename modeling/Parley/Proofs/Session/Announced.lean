/-
  Parley.Proofs.Session.Announced

  The two ways of a checkpoint. Executing one asks the host to save, under its label, and notes
  the label in a local variable, from which the record takes it. If nothing else writes this
  variable, both agree after every history: the record carries the label of the last checkpoint
  that the outputs announced (`record_of_announced`).
-/
import Parley.Proofs.Session.Checkpoint
import Parley.Proofs.Session.Delivery

namespace Parley

variable {H : Type} [Host H]

/-- The label of a checkpoint that an effect announces. -/
def Effect.announced? : Effect → Option (Option String)
  | .checkpoint label => some label
  | _ => none

/-- Whether an action of the program is a creation or a change of the given local variable. -/
def Program.assigns (p : Program) (var : String) : Bool :=
  p.slots.toList.any fun
    | .action a => a.assigns var
    | .malformed .. => false

theorem Program.assigns_of_fetch {p : Program} {var : String} (h : p.assigns var = false)
    {position : Nat} {a : Action} (hslot : p.fetch position = .action a) :
    a.assigns var = false := by
  have hnone := List.any_eq_false.1 h (.action a) (mem_of_fetch hslot)
  exact Bool.eq_false_iff.2 hnone

/-! ### The variable -/

/-- After an action the checkpoint variable holds the checkpoint that the action announces, or
    else what it held before. -/
theorem Action.get?_checkpointVar {settings : Settings} {a : Action}
    (hvars : settings.unlockedVar ≠ settings.checkpointVar)
    (hassigns : a.assigns settings.checkpointVar = false) (scope : Scope) :
    (a.writeLocals settings scope).get? settings.checkpointVar =
      ((a.requests.filterMap Effect.announced?).getLast?.map checkpointValue).or
        (scope.get? settings.checkpointVar) := by
  -- Every action but a checkpoint leaves the variable alone and announces nothing.
  have hother (hwrites : a.writes settings settings.checkpointVar = false)
      (hquiet : a.requests.filterMap Effect.announced? = []) :
      (a.writeLocals settings scope).get? settings.checkpointVar =
        ((a.requests.filterMap Effect.announced?).getLast?.map checkpointValue).or
          (scope.get? settings.checkpointVar) := by
    rw [get?_writeLocals scope hwrites, hquiet]
    rfl
  cases a with
  | checkpoint label => exact Table.get?_insert_self scope settings.checkpointVar _
  | unlock events => exact hother (by simpa [writes] using hvars) rfl
  | _ => exact hother hassigns rfl

/-- After some actions the checkpoint variable holds the last checkpoint that they announce. -/
theorem Scope.get?_checkpointVar {settings : Settings} {actions : List Action}
    (hvars : settings.unlockedVar ≠ settings.checkpointVar)
    (hassigns : ∀ a ∈ actions, a.assigns settings.checkpointVar = false) (scope : Scope) :
    (scope.writtenBy settings actions).get? settings.checkpointVar =
      (((actions.flatMap Action.requests).filterMap Effect.announced?).getLast?.map
        Action.checkpointValue).or (scope.get? settings.checkpointVar) := by
  -- Along the actions: what the rest announces comes last, so it decides if there is any.
  induction actions generalizing scope with
  | nil => rfl
  | cons a actions ih =>
      have hfirst := Action.get?_checkpointVar hvars (hassigns a List.mem_cons_self) scope
      have hrest := ih (fun b hb => hassigns b (List.mem_cons_of_mem a hb))
        (a.writeLocals settings scope)
      rw [hfirst, ← Option.or_assoc, ← Option.map_or] at hrest
      rw [List.flatMap_cons, List.filterMap_append, List.getLast?_append]
      exact hrest

namespace Session

/-- The labels of the checkpoints that the outputs of a history announce, in order. -/
def announced (s : Session H) (calls : List Call) : List (Option String) :=
  ((s.outputs calls).flatMap Output.effects).filterMap Effect.announced?

/-- The record agrees with what the outputs announced. If no action assigns the checkpoint
    variable and labels are unlocked in another one, then after every history the record carries
    the label of the last checkpoint that was announced, and no checkpoint if it had no label or
    none was announced. Its position is 0 if the session has ended by itself, else that of the
    session. -/
theorem record_of_announced (program : Program) (identity : Identity) (host : H) (book : Book)
    (settings : Settings) (entropy : UInt64) (calls : List Call)
    (hvars : settings.unlockedVar ≠ settings.checkpointVar)
    (hassigns : program.assigns settings.checkpointVar = false) :
    let opened := ofBook program identity host book settings entropy
    let s := opened.after calls
    (∀ label, (opened.announced calls).getLast? = some label →
      s.progress.own.checkpoint = label) ∧
    (opened.announced calls = [] → s.progress.own.checkpoint = none) ∧
    s.progress.own.counter = if s.state.status.endedByItself then 0 else s.state.pc := by
  intro opened s
  -- What a session executes stands in its program, so the check covers the whole trace.
  have htrace : ∀ a ∈ opened.trace calls, a.assigns settings.checkpointVar = false := by
    intro a ha
    obtain ⟨position, hslot⟩ := mem_trace ha
    exact Program.assigns_of_fetch hassigns hslot
  -- A session begins without local variables.
  have hvar : (Scope.writtenBy .empty opened.settings (opened.trace calls)).get?
      opened.settings.checkpointVar =
        ((opened.announced calls).getLast?.map Action.checkpointValue).or none := by
    rw [announced, outputs_effects]
    exact Scope.get?_checkpointVar hvars htrace .empty
  have hcheckpoint : s.progress.own.checkpoint = (opened.announced calls).getLast?.join := by
    rw [progress_checkpoint (s := opened) rfl calls, hvar]
    rcases (opened.announced calls).getLast? with _ | _ | label <;> rfl
  refine ⟨?_, ?_, State.savedCounter_eq s.state⟩
  · intro label hlast
    rw [hcheckpoint, hlast]
    rfl
  · intro hnone
    rw [hcheckpoint, hnone]
    rfl

/-- Two checkpoints in one run; then an answer leads nowhere and the session is aborted. -/
theorem record_of_announced_abort :
    let program := Program.ofActions
      [.unlock ["inn"], .checkpoint (some "inn"), .line none (some "On we go.") none,
        .checkpoint (some "road"), .label "road", .choice [⟨"sea", "Sail"⟩]]
    let identity : Identity := ⟨⟨"villager", "Mira"⟩, "player-1", true⟩
    let opened := ofBook program identity SilentHost.silent {} {} 0
    let s := opened.after [.start, .choose "sea"]
    program.assigns "checkpoint" = false ∧
      opened.announced [.start, .choose "sea"] = [some "inn", some "road"] ∧
      s.state.status.endedByItself = true ∧
      s.progress.own.checkpoint = some "road" ∧ s.progress.own.counter = 0 := by
  intro program identity opened s
  have hassigns : program.assigns "checkpoint" = false := by decide +kernel
  have hlist : opened.announced [.start, .choose "sea"] = [some "inn", some "road"] := by
    decide +kernel
  have hended : s.state.status.endedByItself = true := by decide +kernel
  have hlast : (opened.announced [.start, .choose "sea"]).getLast? = some (some "road") := by
    rw [hlist]
    rfl
  have hs : s = (ofBook program identity SilentHost.silent {} {} 0).after
      [.start, .choose "sea"] := rfl
  obtain ⟨hlabel, -, hcounter⟩ := record_of_announced program identity SilentHost.silent {} {} 0
    [.start, .choose "sea"] (by decide) hassigns
  rw [← hs] at hlabel hcounter
  rw [if_pos hended] at hcounter
  exact ⟨hassigns, hlist, hended, hlabel (some "road") hlast, hcounter⟩

end Session

end Parley
