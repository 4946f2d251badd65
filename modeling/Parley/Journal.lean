/-
  Parley.Journal

  What is noted while a session runs, for a log. The entries of a step, a run or an input
  are functions of the state before it, so execution itself knows nothing of the journal.
-/
import Parley.Autosave
import Parley.Save.Folder
import Parley.Script

namespace Parley.Journal

inductive Level where
  | debug
  | info
  | warn
  | error
deriving BEq, DecidableEq, Repr

def Level.name : Level → String
  | .debug => "DEBUG"
  | .info => "INFO"
  | .warn => "WARN"
  | .error => "ERROR"

/-- Whether entries of this level are shown only on request. -/
def Level.isDetail : Level → Bool
  | .debug => true
  | .info => true
  | .warn => false
  | .error => false

structure Entry where
  level : Level
  /-- The part of the program that made the entry. -/
  source : String
  message : String
deriving BEq, DecidableEq, Repr

/-- A line of the log; sources are filled up to ten characters. -/
def Entry.line (e : Entry) : String :=
  let gap := String.ofList (List.replicate (10 - e.source.length) ' ')
  "[" ++ e.level.name ++ "] " ++ e.source ++ gap ++ " " ++ e.message

/-! ### Wording -/

def optionText : Option String → String
  | none => "None"
  | some s => "Some(" ++ Text.quoted s ++ ")"

def predicateText : Predicate → String
  | .equal => "Equal"
  | .notEqual => "NotEqual"
  | .lessThan => "LessThan"
  | .greaterThan => "GreaterThan"
  | .day => "Day"
  | .night => "Night"

def opText : MutationOp → String
  | .set => "Set"
  | .add => "Add"
  | .append => "Append"

/-- A session in the words of the log. -/
def sessionText (e : Entity) (uid : String) : String := e.type ++ "/" ++ e.name ++ "#" ++ uid

/-! ### Loading -/

/-- An entry about a record that does not read. -/
def ofSlot : Slot × Nat → Option Entry
  | (.malformed tag reason, position) =>
    some ⟨.warn, "vnscript::program",
      "[Program] Action at position " ++ toString position ++ " ('" ++ tag ++
        "') is malformed: " ++ reason⟩
  | (.action _, _) => none

/-- Entries about labels that are defined again; `labels` are the definitions so far. -/
def ofLabels (labels : Table Nat) : List (Slot × Nat) → List Entry
  | [] => []
  | (slot, position) :: rest =>
    let later := ofLabels (Program.enter labels slot position) rest
    match slot.labelName? with
    | none => later
    | some name =>
      match labels.get? name with
      | none => later
      | some previous =>
        ⟨.debug, "vnscript::program",
          "[Program] Label '" ++ name ++ "' at " ++ toString previous ++ " redefined at " ++
            toString position⟩ :: later

def ofProgram (p : Program) : List Entry :=
  let numbered := p.slots.toList.zipIdx
  numbered.filterMap ofSlot ++ ofLabels .empty numbered

/-- An entry about the identifier that a script was given if its text gives none. -/
def ofText (text : String) (s : Script) : List Entry :=
  if (Script.decode? text).any Script.isAnonymous then
    [⟨.debug, "vnscript::script",
      "[Script] Generated uuid " ++ s.id ++ " for '" ++ s.name ++ "'"⟩]
  else []

def ofOpening {H : Type} (s : Session H) : List Entry :=
  [⟨.debug, "vnscript::storage",
    "[Storage] Loaded progress for " ++ sessionText s.identity.entity s.identity.uid ++ ": PC=" ++
      toString s.state.pc ++ ", " ++ toString s.state.globals.size ++ " globals"⟩]

/-! ### Steps -/

def engineEntry (level : Level) (message : String) : Entry := ⟨level, "vnscript::runtime", message⟩

/-- From one position to another. -/
def way (pc target : Nat) : String :=
  "jumping from PC=" ++ toString pc ++ " to PC=" ++ toString target

def ofMutation (title : String) (m : Mutation) (scope : Scope) : Entry :=
  match m.apply scope with
  | (scope, .ok ()) =>
    engineEntry .debug ("[Modify] " ++ title ++ " " ++ m.var ++ " " ++ opText m.op ++ " " ++
      m.value.display ++ " -> " ++ ((scope.get? m.var).getD .null).display)
  | (_, .error e) => engineEntry .warn ("[Modify] Ignoring " ++ title ++ " mutation: " ++ e.message)

def ofCondition (c : Condition) (scope : Scope) (isDay : Bool) (pc : Nat) : List Entry :=
  if c.holds scope isDay then []
  else
    [engineEntry .debug ("[Conditional] " ++ predicateText c.predicate ++ " on " ++
      optionText c.var ++ " is FALSE, " ++ way pc c.otherwise)]

def ofCreation (name : String) (init : Value) (scope : Scope) : List Entry :=
  if scope.contains name then []
  else [engineEntry .debug ("[Meta] Created " ++ name ++ "=" ++ init.display)]

/-- The variable of unlocked events should hold a list. -/
def ofUnlocked (locals : Scope) (var : String) : List Entry :=
  match locals.get? var with
  | none | some .null | some (.list _) => []
  | some v =>
    [engineEntry .warn ("[IdleChat] '" ++ var ++ "' holds a " ++ v.kind ++ ", expected a list")]

def ofChoices (options : List ChoiceOption) (pc : Nat) : List Entry :=
  [engineEntry .debug ("[Branch] Presenting " ++ toString options.length ++ " choices at PC=" ++
    toString pc)]

/-- The entries about an action, before its flow. -/
def ofAction (p : Program) (settings : Settings) (s : State) : Action → List Entry
  | .note (some "create_var") (some name) init => ofCreation name init s.locals
  | .note (some "create_global") (some name) init => ofCreation name init s.globals
  | .modifyLocal m => [ofMutation "local" m s.locals]
  | .modifyGlobal m => [ofMutation "global" m s.globals]
  | .whenLocal c => ofCondition c s.locals s.isDay s.pc
  | .whenGlobal c => ofCondition c s.globals s.isDay s.pc
  | .transition "jump" (some label) =>
    match p.target label with
    | none => []
    | some target =>
      [engineEntry .debug ("[Jump] Jumping from PC=" ++ toString s.pc ++ " to PC=" ++
        toString target ++ " (label=" ++ label ++ ")")]
  | .choice options => if options.isEmpty then [] else ofChoices options s.pc
  | .nightChoice options => if s.isDay || options.isEmpty then [] else ofChoices options s.pc
  | .unlock _ => ofUnlocked s.locals settings.unlockedVar
  | .idleChat =>
    ofUnlocked s.locals settings.unlockedVar ++
      match Random.pick s.seed (Engine.unlockedEvents s.locals settings.unlockedVar) with
      | none => []
      | some (label, _) =>
        match p.target label with
        | none => []
        | some target =>
          [engineEntry .debug ("[IdleChat] Picked '" ++ label ++ "', " ++ way s.pc target)]
  | _ => []

def ofAbort (cause : Abort) : Entry :=
  engineEntry .error ("[Engine] Session aborted: " ++ cause.message)

/-- The entries about how a step ended. -/
def ofFlow (pc : Nat) : Engine.Flow → List Entry
  | .finish reason =>
    [engineEntry .debug ("[Engine] Finished at PC=" ++ toString pc ++ ": " ++ reason.name)]
  | .abort cause => [ofAbort cause]
  | _ => []

/-- The entries of one step of a state that is not at rest. -/
def ofStep (p : Program) (settings : Settings) (s : State) : List Entry :=
  let fetched := match p.fetch s.pc with
    | .endOfProgram =>
      [engineEntry .info ("[Engine] Reached end of program at PC=" ++ toString s.pc)]
    | .malformed .. => []
    | .action a => ofAction p settings s a
  fetched ++ ofFlow s.pc (Engine.executeAt p settings s).flow

/-- The entries of a run with so many steps left. -/
def ofLoop (p : Program) (settings : Settings) : Nat → State → List Entry
  | 0, s =>
    [engineEntry .error ("[Engine] Session aborted at PC=" ++ toString s.pc ++ ": " ++
      (Abort.stepLimit settings.maxSteps).message)]
  | fuel + 1, s =>
    let t := Engine.step p settings s
    ofStep p settings s ++
      match t.outcome with
      | .proceed => ofLoop p settings fuel t.state
      | _ => []

def ofRun (p : Program) (settings : Settings) (s : State) : List Entry :=
  match Engine.restingOutcome? s.status with
  | some _ => []
  | none => ofLoop p settings settings.maxSteps { s with screen := s.screen.clearOneShots }

/-! ### Sessions -/

section Running

variable {H : Type} [Host H]

/-- Entries about commands that the host refuses when their turn comes. -/
def ofEffects (h : H) : List Effect → List Entry
  | [] => []
  | e :: rest =>
    let later := ofEffects (Host.apply h e) rest
    match e with
    | .command command =>
      if (Host.runCommand h command).2 then later
      else ⟨.warn, "vnscript::host", "[Host] Command refused: " ++ command⟩ :: later
    | _ => later

/-- The entries of a run of a session. -/
def ofSessionRun (s : Session H) : List Entry :=
  ofRun s.program s.settings s.state ++
    ofEffects s.host (Engine.run s.program s.settings s.state).2.effects

def ofStart (s : Session H) : List Entry :=
  match s.state.status with
  | .idle =>
    ⟨.info, "vnscript::session",
      "[Session] Starting " ++ sessionText s.identity.entity s.identity.uid ++ " at PC=" ++
        toString s.state.pc⟩ :: ofSessionRun s
  | .running | .awaiting _ => ofSessionRun s
  | _ => []

/-- The entries of an input. -/
def ofSubmit (s : Session H) (input : Input) : List Entry :=
  let taken := match input, s.state.status with
    | .choose label, .awaiting .choice =>
      if s.state.screen.choices.any (·.label == label) then
        match s.program.target label with
        | none => [ofAbort (.unresolvedLabel label s.state.pc)]
        | some target =>
          [engineEntry .debug ("[Branch] Choice '" ++ label ++ "' selected, " ++
            way s.state.pc target)]
      else []
    | _, _ => []
  match Engine.resume s.program s.state input with
  | (_, .error _) => taken
  | (state, .ok ()) => taken ++ ofSessionRun { s with state }

end Running

def ofStop {H : Type} (s : Session H) : List Entry :=
  if s.state.status.isTerminal then []
  else [⟨.info, "vnscript::session", "[Session] Stopped at PC=" ++ toString s.state.pc⟩]

/-- The entry about an attempt to save the pending progress in a folder. -/
def ofFlush {H : Type} (base : String) (s : Session H) (result : Except StoreError Unit) :
    List Entry :=
  match s.pending with
  | none => []
  | some r =>
    match result with
    | .ok () =>
      [⟨.debug, "vnscript::storage::store",
        "[Storage] Saved " ++ sessionText r.global.entity r.own.uid ++ " to " ++
          Save.filePath base r.global.entity⟩]
    | .error e =>
      [⟨.error, "vnscript::runner",
        "[Runner] Failed to save progress for " ++ sessionText r.own.entity r.own.uid ++ ": " ++
          e.message⟩]

end Parley.Journal
