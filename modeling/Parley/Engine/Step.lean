/-
  Parley.Engine.Step

  One step of execution. `execute` says what an action does to the state, what it asks of
  the host, and where execution goes on; `step` fetches the action at the position of the
  state, executes it and moves on. A session that waits or has ended is left alone.
-/
import Parley.State.Basic
import Parley.Program
import Parley.Condition
import Parley.Mutation
import Parley.Settings
import Parley.Random.Draw

namespace Parley.Engine

/-- Where execution goes after an action. -/
inductive Flow where
  | next
  | goto (target : Nat)
  | await (wait : Wait) (resumeAt : Nat)
  | finish (reason : FinishReason)
  | abort (cause : Abort)
deriving BEq, DecidableEq, Repr

/-- What an action does. -/
structure Execution where
  state : State
  effects : List Effect := []
  flow : Flow := .next

/-- The state, outcome and effects of a step. -/
structure Transition where
  state : State
  outcome : Outcome
  effects : List Effect

/-! ### Parts of actions -/

/-- The labels in the variable; a variable that holds no list holds none. -/
def unlockedEvents (locals : Scope) (var : String) : List String :=
  match locals.get? var with
  | some (.list items) => items
  | _ => []

/-- Puts an event at the end unless it is there. -/
def addEvent (events : List String) (event : String) : List String :=
  if events.contains event then events else events ++ [event]

/-- The scope after a mutation. One that fails does not stop the script. -/
def mutate (m : Mutation) (scope : Scope) : Scope := (m.apply scope).1

/-- Goes on behind the condition if it holds. -/
def branch (c : Condition) (scope : Scope) (isDay : Bool) : Flow :=
  if c.holds scope isDay then .next else .goto c.otherwise

/-- Goes on just past a label. -/
def jump (p : Program) (label : String) (pc : Nat) : Flow :=
  match p.target label with
  | some target => .goto target
  | none => .abort (.unresolvedLabel label pc)

/-- Publishes choices and waits for an answer. -/
def present (s : State) (options : List ChoiceOption) : Execution where
  state := { s with screen := { s.screen with choices := options } }
  flow := .await .choice s.pc

/-- What the creation of a variable does. -/
def createVariable (s : State) (action var : Option String) (init : Value) : Execution :=
  match action, var with
  | some "create_var", some name => { state := { s with locals := s.locals.create name init } }
  | some "create_global", some name => { state := { s with globals := s.globals.create name init } }
  | some "create_var", none | some "create_global", none =>
    { state := s, flow := .abort (.malformedAction s.pc "meta" "missing field `var`") }
  | _, _ => { state := s }

/-- Jumps to an unlocked event that is drawn at random. -/
def chat (p : Program) (settings : Settings) (s : State) : Execution :=
  match Random.pick s.seed (unlockedEvents s.locals settings.unlockedVar) with
  | none => { state := s, flow := .finish .idleChatExhausted }
  | some (label, seed) => { state := { s with seed }, flow := jump p label s.pc }

/-! ### Actions -/

/-- What an action does in a state. -/
def execute (p : Program) (settings : Settings) (s : State) : Action → Execution
  | .note action var init => createVariable s action var init
  | .showSprite id location position layout =>
    let sprite : Sprite :=
      ⟨id, location, position.getD Sprite.defaultPosition, layout.getD {}⟩
    { state := { s with screen := s.screen.showSprite sprite } }
  | .removeSprite id => { state := { s with screen := s.screen.removeSprite id } }
  | .line speaker content voice =>
    { state := { s with screen := s.screen.setLine speaker content voice }
      flow := if settings.pauseOnLine then .await .advance (s.pc + 1) else .next }
  | .modifyLocal m => { state := { s with locals := mutate m s.locals } }
  | .modifyGlobal m => { state := { s with globals := mutate m s.globals } }
  | .giveItem item amount => { state := s, effects := [.giveItem item amount] }
  | .whenLocal c => { state := s, flow := branch c s.locals s.isDay }
  | .whenGlobal c => { state := s, flow := branch c s.globals s.isDay }
  | .transition action label =>
    if action ≠ "jump" then { state := s }
    else
      match label with
      | none =>
        let cause := Abort.malformedAction s.pc "transition" "missing field `label`"
        { state := s, flow := .abort cause }
      | some label => { state := s, flow := jump p label s.pc }
  | .choice options =>
    if options.isEmpty then
      { state := s, flow := .abort (.malformedAction s.pc "choice" "choice list is empty") }
    else present s options
  | .nightChoice options => if s.isDay || options.isEmpty then { state := s } else present s options
  | .command command =>
    { state := { s with screen := { s.screen with command := some command } }
      effects := [.command command] }
  | .setBackground background =>
    { state := { s with screen := { s.screen with background := some background } } }
  | .clearBackground => { state := { s with screen := { s.screen with background := none } } }
  | .unlock events =>
    let unlocked := events.foldl addEvent (unlockedEvents s.locals settings.unlockedVar)
    { state := { s with locals := s.locals.insert settings.unlockedVar (.list unlocked) } }
  | .playSound sound => { state := { s with screen := { s.screen with sound := some sound } } }
  | .playMusic music => { state := { s with screen := { s.screen with music } } }
  | .checkpoint label =>
    let value := match label with
      | some label => Value.text label
      | none => Value.null
    { state := { s with locals := s.locals.insert settings.checkpointVar value }
      effects := [.checkpoint label] }
  | .idleChat => chat p settings s
  | .finish => { state := s, flow := .finish .finishAction }
  | .label _ | .checkInventory | .unknown => { state := s }

/-! ### Steps -/

/-- Moves the state to where execution goes on. -/
def Execution.settle (e : Execution) : Transition :=
  match e.flow with
  | .next => ⟨{ e.state with pc := e.state.pc + 1 }, .proceed, e.effects⟩
  | .goto target => ⟨{ e.state with pc := target }, .proceed, e.effects⟩
  | .await wait resumeAt =>
    ⟨{ e.state with pc := resumeAt, status := .awaiting wait }, .awaiting, e.effects⟩
  | .finish reason => ⟨{ e.state with status := .finished reason }, .finished, e.effects⟩
  | .abort cause => ⟨{ e.state with status := .aborted cause }, .aborted cause, e.effects⟩

/-- What stands at the position of a running state, executed. -/
def executeAt (p : Program) (settings : Settings) (s : State) : Execution :=
  match p.fetch s.pc with
  | .endOfProgram => { state := s, flow := .finish .endOfScript }
  | .malformed tag reason => { state := s, flow := .abort (.malformedAction s.pc tag reason) }
  | .action a => execute p settings s a

/-- The outcome of a state in which nothing is executed. -/
def restingOutcome? : Status → Option Outcome
  | .awaiting _ => some .awaiting
  | .finished _ => some .finished
  | .aborted cause => some (.aborted cause)
  | .idle | .running => none

/-- Executes the action at the position of the state. -/
def step (p : Program) (settings : Settings) (s : State) : Transition :=
  match restingOutcome? s.status with
  | some outcome => ⟨s, outcome, []⟩
  | none => (executeAt p settings { s with status := .running }).settle

end Parley.Engine
