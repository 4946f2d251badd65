/-
  Parley.Proofs.Session.Checkpoint

  What becomes of a checkpoint. A record carries the text that its own session left in the
  checkpoint variable (`progress_checkpoint`). A session begins without local variables, also
  one that was opened at a checkpoint, so the record of a session that notes none carries none:
  a checkpoint in the book is used once, and the next session starts at position 0
  (`checkpoint_forgotten`).
-/
import Parley.Proofs.Session.Trace
import Parley.Proofs.Session.WellFormed
import Parley.Proofs.Session.Reopening

namespace Parley

variable {H : Type} [Host H]

/-! ### Who writes a variable -/

namespace Action

/-- Whether an action writes the given local variable: it notes a checkpoint or unlocks events
    under this name, or it creates or changes the variable. -/
def writes (settings : Settings) (var : String) : Action → Bool
  | .checkpoint _ => settings.checkpointVar == var
  | .unlock _ => settings.unlockedVar == var
  | a => a.assigns var

theorem get?_writeLocals {settings : Settings} {var : String} {a : Action} (scope : Scope)
    (h : a.writes settings var = false) :
    (a.writeLocals settings scope).get? var = scope.get? var := by
  cases a with
  | note action name init =>
      simp only [writeLocals]
      split
      · rename_i haction
        refine Scope.get?_createIn_of_ne init ?_
        rintro rfl
        simp [writes, assigns, haction] at h
      · rfl
  | modifyLocal m =>
      refine Engine.get?_mutate_of_ne scope ?_
      rintro rfl
      simp [writes, assigns] at h
  | unlock events =>
      refine Table.get?_insert_of_ne scope ?_ _
      rintro rfl
      simp [writes] at h
  | checkpoint name =>
      refine Table.get?_insert_of_ne scope ?_ _
      rintro rfl
      simp [writes] at h
  | _ => rfl

end Action

/-- A variable that no action of a list writes keeps its value. -/
theorem Scope.get?_writtenBy {settings : Settings} {var : String} {actions : List Action}
    (h : ∀ a ∈ actions, a.writes settings var = false) (scope : Scope) :
    (scope.writtenBy settings actions).get? var = scope.get? var := by
  refine List.foldlRecOn (motive := fun b : Scope => b.get? var = scope.get? var) actions _ rfl ?_
  intro scope' hsame a ha
  rw [Action.get?_writeLocals scope' (h a ha)]
  exact hsame

/-- Whether a session has ended, and not by being stopped. -/
def Status.endedByItself : Status → Bool
  | .finished .stopped => false
  | .finished _ => true
  | .aborted _ => true
  | _ => false

/-- The position that is saved is that of the state, unless it has ended by itself. -/
theorem State.savedCounter_eq (s : State) :
    s.savedCounter = if s.status.endedByItself then 0 else s.pc := by
  unfold savedCounter
  cases s.status with
  | finished reason => cases reason <;> rfl
  | idle | running | awaiting | aborted => rfl

theorem State.savedCounter_of_ended {s : State} (h : s.status.endedByItself = true) :
    s.savedCounter = 0 := by
  rw [savedCounter_eq, if_pos h]

namespace Session

/-! ### Records -/

theorem call_keys (s : Session H) (c : Call) :
    (s.call c).1.identity.entity = s.identity.entity ∧
      (s.call c).1.identity.uid = s.identity.uid := by
  by_cases hc : ∃ isDay, c = .setDay isDay
  · obtain ⟨isDay, rfl⟩ := hc
    exact ⟨rfl, rfl⟩
  · rw [call_identity s fun isDay h => hc ⟨isDay, h⟩]
    exact ⟨rfl, rfl⟩

/-- The keys of a session stay what they were. -/
theorem after_keys (s : Session H) (calls : List Call) :
    (s.after calls).identity.entity = s.identity.entity ∧
      (s.after calls).identity.uid = s.identity.uid := by
  induction calls generalizing s with
  | nil => exact ⟨rfl, rfl⟩
  | cons c calls ih =>
      obtain ⟨hentity, huid⟩ := ih (s.call c).1
      exact ⟨hentity.trans (call_keys s c).1, huid.trans (call_keys s c).2⟩

/-- The checkpoint of a record is the text that the actions of the session left in the
    checkpoint variable, whatever the book held. -/
theorem progress_checkpoint {s : Session H} (hnew : s.state.locals = .empty) (calls : List Call) :
    (s.after calls).progress.own.checkpoint =
      match (Scope.writtenBy .empty s.settings (s.trace calls)).get? s.settings.checkpointVar with
      | some (.text name) => some name
      | _ => none := by
  have hlocals := after_locals s calls
  have hsettings := (after_fixed s calls).2
  rw [hnew] at hlocals
  have hvar : (s.after calls).state.locals.get? (s.after calls).settings.checkpointVar =
      (Scope.writtenBy .empty s.settings (s.trace calls)).get? s.settings.checkpointVar := by
    rw [hlocals, hsettings]
  exact congrArg (fun v => match v with
    | some (.text name) => some name
    | _ => none) hvar

/-- A checkpoint in the book is used once. A session whose record in the book carries a
    checkpoint that resolves starts just past it, if it does not go on from a position of its
    own. But if none of its actions writes the checkpoint variable, its progress carries no
    checkpoint, and once it has ended by itself and was saved, the next session starts at
    position 0. -/
theorem checkpoint_forgotten (program : Program) (identity : Identity) (host : H) (book : Book)
    (settings : Settings) (entropy : UInt64) (calls : List Call) {r : LocalRecord} {name : String}
    {target : Nat} (hrecord : book.findLocal identity = some r)
    (hcheckpoint : r.checkpoint = some name) (htarget : program.target name = some target)
    (hwrites : ∀ a ∈ (ofBook program identity host book settings entropy).trace calls,
      a.writes settings settings.checkpointVar = false) :
    let opened := ofBook program identity host book settings entropy
    let s := opened.after calls
    (r.counter = 0 → opened.state.pc = target) ∧ s.progress.own.checkpoint = none ∧
      (s.state.status.endedByItself = true → ∀ (host' : H) (entropy' : UInt64),
        (ofBook program identity host' (book.upsert s.progress) settings
          entropy').state.pc = 0) := by
  intro opened s
  have hnone : s.progress.own.checkpoint = none := by
    have hkept : (Scope.writtenBy .empty opened.settings (opened.trace calls)).get?
        opened.settings.checkpointVar = none := Scope.get?_writtenBy hwrites .empty
    rw [progress_checkpoint (s := opened) rfl calls, hkept]
  refine ⟨?_, hnone, ?_⟩
  · intro hcounter
    have hpc : opened.state.pc = r.startingPoint program := by
      simp only [opened, ofBook, State.load, hrecord]
    rw [hpc, LocalRecord.startingPoint, hcounter, hcheckpoint, Option.bind_some, htarget]
    rfl
  · intro hended host' entropy'
    obtain ⟨hentity, huid⟩ := after_keys opened calls
    have hcounter : s.progress.own.counter = 0 := State.savedCounter_of_ended hended
    have hload := load_upsert_save { seed := settings.seed.getD entropy', isDay := identity.isDay }
      s.state program book s.settings.checkpointVar hentity.symm huid.symm
    have hpc := congrArg State.pc hload
    refine hpc.trans ?_
    show s.progress.own.startingPoint program = 0
    rw [LocalRecord.startingPoint, hcounter, hnone]
    rfl

/-- A session that goes on from a checkpoint and is aborted before it notes another. -/
theorem checkpoint_forgotten_by_abort :
    let program := Program.ofActions
      [.checkpoint (some "road"), .label "road", .choice [⟨"road", "Wait"⟩, ⟨"sea", "Sail"⟩]]
    let identity : Identity := ⟨⟨"villager", "Mira"⟩, "player", true⟩
    let book : Book := { locals := [⟨identity.entity, "player", 0, some "road"⟩] }
    let opened := ofBook program identity SilentHost.silent book {} 0
    let s := opened.after [.start, .choose "road", .choose "sea"]
    opened.state.pc = 2 ∧ s.state.status = .aborted (.unresolvedLabel "sea" 2) ∧
      s.progress.own.checkpoint = none ∧
      (ofBook program identity SilentHost.silent (book.upsert s.progress) {} 0).state.pc = 0 := by
  intro program identity book opened s
  let r : LocalRecord := ⟨identity.entity, "player", 0, some "road"⟩
  have hstatus : s.state.status = .aborted (.unresolvedLabel "sea" 2) := by decide +kernel
  have hrecord : book.findLocal identity = some r := by decide +kernel
  have hcheckpoint : r.checkpoint = some "road" := rfl
  have htarget : program.target "road" = some 2 := by decide +kernel
  obtain ⟨hpc, hnone, hnext⟩ := checkpoint_forgotten program identity SilentHost.silent book {} 0
    [.start, .choose "road", .choose "sea"] hrecord hcheckpoint htarget (by decide +kernel)
  have hended : s.state.status.endedByItself = true := by
    rw [hstatus]
    rfl
  exact ⟨hpc rfl, hstatus, hnone, hnext hended SilentHost.silent 0⟩

/-- The smallest loss of a checkpoint: a session that is opened at it, says its line and ends.
    Its record no longer carries the checkpoint, and the next session starts at position 0. -/
theorem checkpoint_lost_at_camp :
    let program := Program.ofActions [.label "camp", .line none (some "Welcome back.") none]
    let identity : Identity := ⟨⟨"villager", "Mira"⟩, "player", true⟩
    let book : Book := { locals := [⟨identity.entity, "player", 0, some "camp"⟩] }
    let opened := ofBook program identity SilentHost.silent book {} 0
    let s := opened.after [.start]
    program.target "camp" = some 1 ∧ s.state.status = .finished .endOfScript ∧
      (∀ a ∈ opened.trace [.start], a.writes {} "checkpoint" = false) ∧
      s.progress.own.checkpoint ≠ some "camp" ∧
      (ofBook program identity SilentHost.silent (book.upsert s.progress) {} 0).state.pc ≠ 1 := by
  decide +kernel

end Session

end Parley
