/-
  Parley.Proofs.Session.WellFormed

  A static check under which no session is ever aborted, but for running too long. A program is
  well-formed for some settings if every record reads, every action has what it needs
  (`Action.complete`), every label that an action may lead to resolves (`Action.targets`), and
  no action assigns the variable that idle chat draws its labels from (`Action.assigns`).

  Most labels stand in the program, so the check sees them resolve. Two kinds are read off the
  state: the answer to a choice, which the lifecycle ties to the slot at the position of the
  state, and the label of an idle chat. For the latter the invariant is `Unlocked`: every label
  in the variable resolves. Only unlocking adds labels to it, and those the check has seen.
-/
import Parley.Proofs.Scope.Mutation
import Parley.Proofs.Session.Lifecycle

namespace Parley

variable {H : Type} [Host H]

namespace Action

/-- Whether an action has what executing it needs. -/
def complete : Action → Bool
  | .note action var _ =>
    !(action == some "create_var" || action == some "create_global") || var.isSome
  | .transition action target => action != "jump" || target.isSome
  | .choice options => !options.isEmpty
  | _ => true

/-- The labels that an action may lead to, at once or by unlocking them. -/
def targets : Action → List String
  | .transition action target => if action = "jump" then target.toList else []
  | .choice options => options.map (·.label)
  | .nightChoice options => options.map (·.label)
  | .unlock events => events
  | _ => []

/-- Whether an action is a creation or a change of the given local variable. -/
def assigns (var : String) : Action → Bool
  | .note action name _ => action == some "create_var" && name == some var
  | .modifyLocal m => m.var == var
  | _ => false

/-- What the check asks of an action. -/
def WellFormed (p : Program) (settings : Settings) (a : Action) : Prop :=
  a.complete = true ∧ (∀ name ∈ a.targets, (p.resolve name).isSome = true) ∧
    a.assigns settings.unlockedVar = false

instance (p : Program) (settings : Settings) (a : Action) : Decidable (a.WellFormed p settings) :=
  inferInstanceAs (Decidable (_ ∧ _ ∧ _))

end Action

/-- What the check asks of a slot: its record reads, and its action passes. -/
def Slot.WellFormed (p : Program) (settings : Settings) : Slot → Prop
  | .action a => a.WellFormed p settings
  | .malformed .. => False

instance (p : Program) (settings : Settings) : (s : Slot) → Decidable (s.WellFormed p settings)
  | .action a => inferInstanceAs (Decidable (a.WellFormed p settings))
  | .malformed .. => isFalse id

/-- Whether every slot of the program passes the check. -/
def Program.WellFormed (p : Program) (settings : Settings) : Prop :=
  ∀ slot ∈ p.slots.toList, slot.WellFormed p settings

instance (p : Program) (settings : Settings) : Decidable (p.WellFormed settings) :=
  inferInstanceAs (Decidable (∀ slot ∈ p.slots.toList, slot.WellFormed p settings))

namespace Program

/-- The action at a position stands in one of the slots. -/
theorem mem_of_fetch {p : Program} {position : Nat} {a : Action}
    (hslot : p.fetch position = .action a) : .action a ∈ p.slots.toList := by
  unfold fetch at hslot
  split at hslot
  · rename_i hget
    cases hslot
    simpa using Array.mem_of_getElem? hget
  · cases hslot
  · cases hslot

theorem WellFormed.action {p : Program} {settings : Settings} (hp : p.WellFormed settings)
    {position : Nat} {a : Action} (hslot : p.fetch position = .action a) :
    a.WellFormed p settings :=
  hp (.action a) (mem_of_fetch hslot)

theorem WellFormed.not_malformed {p : Program} {settings : Settings} (hp : p.WellFormed settings)
    {position : Nat} {tag reason : String} : p.fetch position ≠ .malformed tag reason := by
  intro hslot
  unfold fetch at hslot
  split at hslot
  · cases hslot
  · rename_i hget
    exact hp (.malformed _ _) (by simpa using Array.mem_of_getElem? hget)
  · cases hslot

theorem target_ne_none {p : Program} {name : String} (h : (p.resolve name).isSome = true) :
    p.target name ≠ none := by
  rw [target, ne_eq, Option.map_eq_none_iff]
  exact Option.isSome_iff_ne_none.1 h

end Program

/-! ### The labels of idle chat -/

theorem Scope.get?_create_of_ne {scope : Scope} {name other : String} (init : Value)
    (h : other ≠ name) : (scope.create name init).get? other = scope.get? other := by
  unfold create
  split
  · rfl
  · exact Table.get?_insert_of_ne scope h init

theorem Scope.get?_createIn_of_ne {scope : Scope} {name : Option String} {other : String}
    (init : Value) (h : name ≠ some other) :
    (scope.createIn name init).get? other = scope.get? other := by
  cases name with
  | none => rfl
  | some name =>
      apply Scope.get?_create_of_ne
      intro heq
      exact h (congrArg some heq.symm)

namespace Engine

theorem unlockedEvents_congr {scope scope' : Scope} {var : String}
    (h : scope'.get? var = scope.get? var) :
    unlockedEvents scope' var = unlockedEvents scope var := by
  rw [unlockedEvents, h, unlockedEvents]

theorem mem_addEvent {events : List String} {event name : String}
    (h : name ∈ addEvent events event) : name ∈ events ∨ name = event := by
  unfold addEvent at h
  split at h
  · exact .inl h
  · simpa using h

theorem mem_foldl_addEvent {new events : List String} {name : String}
    (h : name ∈ new.foldl addEvent events) : name ∈ events ∨ name ∈ new := by
  induction new generalizing events with
  | nil => exact .inl h
  | cons event new ih =>
      rcases ih h with hold | hnew
      · rcases mem_addEvent hold with hold | rfl
        · exact .inl hold
        · exact .inr List.mem_cons_self
      · exact .inr (List.mem_cons_of_mem event hnew)

/-- A label in the variable after an action was there before, or the action unlocks it; unless
    the action assigns the variable. -/
theorem mem_unlockedEvents_writeLocals {settings : Settings} {a : Action} {scope : Scope}
    {name : String} (hassigns : a.assigns settings.unlockedVar = false)
    (h : name ∈ unlockedEvents (a.writeLocals settings scope) settings.unlockedVar) :
    name ∈ unlockedEvents scope settings.unlockedVar ∨ name ∈ a.targets := by
  cases a with
  | note action var init =>
      left
      rwa [unlockedEvents_congr] at h
      simp only [Action.writeLocals]
      split
      · rename_i haction
        refine Scope.get?_createIn_of_ne init ?_
        rintro rfl
        simp [Action.assigns, haction] at hassigns
      · rfl
  | modifyLocal m =>
      left
      rwa [unlockedEvents_congr] at h
      refine get?_mutate_of_ne scope ?_
      rintro hvar
      simp [Action.assigns, hvar] at hassigns
  | unlock events =>
      -- What unlocking adds are the targets of the action.
      simp only [Action.writeLocals, unlockedEvents, Table.get?_insert_self] at h
      exact mem_foldl_addEvent h
  | checkpoint label =>
      left
      by_cases hvar : settings.unlockedVar = settings.checkpointVar
      · -- The checkpoint overwrites the variable with a text or `null`, which hold no labels.
        cases label <;>
          simp [Action.writeLocals, Action.checkpointValue, unlockedEvents, hvar] at h
      · rwa [unlockedEvents_congr] at h
        exact Table.get?_insert_of_ne scope hvar _
  | _ => exact .inl h

/-! ### Steps and runs -/

/-- Every label that idle chat could draw resolves. -/
def Unlocked (p : Program) (settings : Settings) (s : State) : Prop :=
  ∀ name ∈ unlockedEvents s.locals settings.unlockedVar, (p.resolve name).isSome = true

theorem perform_unlocked {p : Program} {settings : Settings} {s : State} {a : Action}
    (ha : a.WellFormed p settings) (hs : Unlocked p settings s) :
    Unlocked p settings (perform settings s a) := by
  intro name hname
  rcases mem_unlockedEvents_writeLocals ha.2.2 hname with hold | hnew
  · exact hs name hold
  · exact ha.2.1 name hnew

/-- A well-formed action does not abort. -/
theorem flowOf_ne_abort {p : Program} {settings : Settings} {s : State} {a : Action}
    (ha : a.WellFormed p settings) (hs : Unlocked p settings s) (cause : Abort) :
    flowOf p settings s a ≠ .abort cause := by
  intro hflow
  obtain ⟨hcomplete, htargets, -⟩ := ha
  have hleads := leads_flowOf p settings s a
  rw [hflow] at hleads
  -- Of the ways on, five abort: two lead to a label that does not resolve, three lack a part.
  cases hleads with
  | jumpLost htarget =>
      exact Program.target_ne_none (htargets _ (by simp [Action.targets])) htarget
  | chatLost hdraw htarget => exact Program.target_ne_none (hs _ (mem_of_pick hdraw)) htarget
  | noName haction => rcases haction with rfl | rfl <;> simp [Action.complete] at hcomplete
  | noLabel => simp [Action.complete] at hcomplete
  | noOptions => simp [Action.complete] at hcomplete

/-- Not aborted, unless for running too long. -/
def Unharmed (s : State) : Prop :=
  ∀ cause, s.status = .aborted cause → ∃ limit, cause = .stepLimit limit

theorem step_unlocked {p : Program} {settings : Settings} {s : State}
    (hp : p.WellFormed settings) (hactive : Active s) (hs : Unlocked p settings s) :
    Unlocked p settings (step p settings s).state ∧ Unharmed (step p settings s).state := by
  have hstep := step_cases p settings hactive
  generalize step p settings s = t at hstep ⊢
  cases hstep with
  | ended => exact ⟨hs, nofun⟩
  | malformed hslot => exact absurd hslot hp.not_malformed
  | next hslot | goto hslot | await hslot | finish hslot =>
      exact ⟨perform_unlocked (hp.action hslot) hs, nofun⟩
  | abort hslot hflow => exact absurd hflow (flowOf_ne_abort (hp.action hslot) hs _)

theorem run_unlocked {p : Program} {settings : Settings} {s : State}
    (hp : p.WellFormed settings) (hactive : Active s) (hs : Unlocked p settings s) :
    Unlocked p settings (run p settings s).1 ∧ Unharmed (run p settings s).1 := by
  refine run_induction (fun s => Active s ∧ Unlocked p settings s)
    (fun s _ => Unlocked p settings s ∧ Unharmed s) ?_ ?_ ?_ hactive ⟨hactive, hs⟩
  · intro s hs hproceed
    exact ⟨step_active hs.1 hproceed, (step_unlocked hp hs.1 hs.2).1⟩
  · intro s hs _
    exact step_unlocked hp hs.1 hs.2
  · -- Running too long is the one abort that the check does not rule out.
    intro s limit hs
    refine ⟨hs.2, fun cause hcause => ?_⟩
    cases hcause
    exact ⟨limit, rfl⟩

/-! ### Calls -/

/-- What holds of a session of a well-formed program between calls. -/
structure Sound (p : Program) (settings : Settings) (s : State) : Prop where
  lifecycle : Lifecycle p settings s
  unlocked : Unlocked p settings s
  unharmed : Unharmed s

/-- The choices on screen were presented by the program, so each of their labels resolves. -/
theorem Sound.target_ne_none {p : Program} {settings : Settings} {s : State}
    (h : Sound p settings s) (hp : p.WellFormed settings) (hstatus : s.status = .awaiting .choice)
    {name : String} (hname : ∃ o ∈ s.screen.choices, o.label = name) : p.target name ≠ none := by
  obtain ⟨o, ho, rfl⟩ := hname
  have hmem : o.label ∈ s.screen.choices.map (·.label) := List.mem_map_of_mem ho
  rcases (h.lifecycle.choosing hstatus).2 with hslot | hslot
  · exact Program.target_ne_none ((hp.action hslot).2.1 _ hmem)
  · exact Program.target_ne_none ((hp.action hslot).2.1 _ hmem)

theorem Resumed.unlocked {p : Program} {settings : Settings} {s r : State}
    (hresumed : Resumed p s r) (hs : Unlocked p settings s) : Unlocked p settings r := by
  cases hresumed <;> exact hs

theorem Sound.moved {p : Program} {settings : Settings} {s s' : State} {output : Option Output}
    (hp : p.WellFormed settings) (h : Sound p settings s) (hmoved : Moved p settings s s' output) :
    Sound p settings s' := by
  have hrest : Unlocked p settings s' ∧ Unharmed s' := by
    cases hmoved with
    | same | wait | day => exact ⟨h.unlocked, h.unharmed⟩
    | stop => exact ⟨h.unlocked, nofun⟩
    | lose hstatus hname htarget => exact absurd htarget (h.target_ne_none hp hstatus hname)
    | run hresumed => exact run_unlocked hp hresumed.active (hresumed.unlocked h.unlocked)
  exact ⟨h.lifecycle.moved hmoved, hrest.1, hrest.2⟩

end Engine

namespace Session

open Engine

omit [Host H] in
theorem ofBook_sound (program : Program) (identity : Identity) (host : H) (book : Book)
    (settings : Settings) (entropy : UInt64) :
    Sound program settings (ofBook program identity host book settings entropy).state where
  lifecycle := ofBook_lifecycle program identity host book settings entropy
  unlocked := nofun
  unharmed := nofun

theorem choose_ne_aborted {s : Session H} (hp : s.program.WellFormed s.settings)
    (hs : Sound s.program s.settings s.state) (name : String) (cause : Abort) :
    (s.choose name).2 ≠ .error (.aborted cause) := by
  by_cases hstatus : s.state.status = .awaiting .choice
  · by_cases hname : ∃ o ∈ s.state.screen.choices, o.label = name
    · cases htarget : s.program.target name with
      | none => exact absurd htarget (hs.target_ne_none hp hstatus hname)
      | some target => rw [choose_of_found hstatus hname htarget]; nofun
    · rw [choose_of_unknown hstatus hname]; nofun
  · rw [choose_of_not_awaiting name hstatus]; nofun

/-- A session of a well-formed program is never aborted, except for running into the step
    limit, and answering a choice never fails in the engine. -/
theorem unharmed_of_wellFormed (program : Program) (settings : Settings)
    (hprogram : program.WellFormed settings) (identity : Identity) (host : H) (book : Book)
    (entropy : UInt64) (calls : List Call) :
    let s := (ofBook program identity host book settings entropy).after calls
    (∀ cause, s.state.status = .aborted cause → ∃ limit, cause = .stepLimit limit) ∧
      ∀ (name : String) (cause : Abort), (s.choose name).2 ≠ .error (.aborted cause) := by
  intro s
  have hfixed := after_fixed (ofBook program identity host book settings entropy) calls
  have hsound : Sound program settings s.state :=
    after_induction (fun _ _ _ h hmoved => h.moved hprogram hmoved)
      (ofBook_sound program identity host book settings entropy) calls
  refine ⟨hsound.unharmed, fun name cause => choose_ne_aborted ?_ ?_ name cause⟩
  · rw [hfixed.1, hfixed.2]
    exact hprogram
  · rw [hfixed.1, hfixed.2]
    exact hsound

/-- A program with every kind of jump passes the check: one that unlocks its own chat. -/
theorem unharmed_chat :
    let program := Program.ofActions
      [.label "hello", .note (some "create_var") (some "mood") .null, .unlock ["weather"],
        .choice [⟨"weather", "Talk"⟩, ⟨"hello", "Again"⟩], .label "weather",
        .transition "jump" (some "hello"), .nightChoice [⟨"hello", "Greet"⟩], .idleChat]
    program.WellFormed {} ∧
      (let s := (ofBook program ⟨⟨"villager", "Mira"⟩, "player", true⟩ SilentHost.silent {} {}
        0).after [.start, .choose "weather", .choose "hello", .stop]
      (∀ cause, s.state.status = .aborted cause → ∃ limit, cause = .stepLimit limit) ∧
        ∀ (name : String) (cause : Abort), (s.choose name).2 ≠ .error (.aborted cause)) := by
  intro program
  have hprogram : program.WellFormed {} := by decide
  exact ⟨hprogram, unharmed_of_wellFormed program {} hprogram _ _ _ _ _⟩

end Session

end Parley
