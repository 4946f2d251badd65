/-
  Parley.Terminal.Player

  Playing a script in a terminal. The player is a machine that takes one typed line after
  another: between lines it prints what changed, asks for what the session waits for, and
  saves in a store, that of the directory in its options (`Player.storeOf`). `Player.begin` opens
  a script, `Player.answer` takes a line.
-/
import Parley.Terminal.View
import Parley.Journal

namespace Parley.Terminal

/-- How a script is played. -/
structure Options where
  /-- Show variables after every slice, and details in the log. -/
  debug : Bool := false
  night : Bool := false
  saveDir : String := "saves"
deriving BEq, DecidableEq, Repr

/-- What was printed and noted. -/
structure Report where
  out : String := ""
  log : List Journal.Entry := []

def Report.append (a b : Report) : Report := ⟨a.out ++ b.out, a.log ++ b.log⟩

instance : Append Report := ⟨Report.append⟩

structure Player where
  options : Options
  session : Session Ledger
  view : View := {}

/-- Whether the game goes on, and if not, why it failed if it did. -/
inductive Next where
  | waiting (p : Player)
  | over (failure : Option String)

/-! ### What the player types -/

inductive Answer where
  | goOn
  /-- The option with this number, counted from 0. -/
  | option (index : Nat)
  | quit
  | invalid
deriving BEq, DecidableEq, Repr

/-- The natural number below 2^64 that a text spells; a plus sign may stand before it. -/
def number? (cs : List Char) : Option Nat :=
  let digits := match cs with
    | '+' :: rest => rest
    | cs => cs
  if digits ≠ [] ∧ digits.all Json.Numeral.isDigit then
    let n := Json.Numeral.digitsValue digits
    if n < Nat.pow 2 64 then some n else none
  else none

def Answer.ofLine (line : String) : Answer :=
  let text := Text.trim line
  if text = "" then .goOn
  else if text = "q" then .quit
  else
    match number? text.toList with
    | some (n + 1) => .option n
    | _ => .invalid

/-! ### What is printed -/

def lines (l : List String) : String := String.join (l.map (· ++ "\n"))

def banner (s : Script) : String :=
  lines <| ["=== " ++ s.name ++ " ==="] ++
    (if s.description.isEmpty then [] else [s.description]) ++
    ["", "Controls:", "  Enter: next", "  1-9:   select choice",
      "  q:     quit (progress is saved)", ""]

def resuming : String := lines ["(resuming saved progress)", ""]

def clearScreen : String := "\x1b[2J\x1b[H"

/-- The options under their numbers, counted from `n`. -/
def numbered : Nat → List ChoiceOption → List String
  | _, [] => []
  | n, o :: rest => (toString n ++ ". " ++ o.text) :: numbered (n + 1) rest

def askForChoice : String := "Select: "

def choicesText (options : List ChoiceOption) : String :=
  clearScreen ++ lines (["--- Choice ---"] ++ numbered 1 options ++ [""]) ++ askForChoice

def effectText : Effect → List String
  | .giveItem item amount => ["[Received " ++ toString amount ++ " x " ++ item ++ "]"]
  | .command command => ["[Command: " ++ command ++ "]"]
  | .checkpoint _ => []

def inventoryText (t : Table Nat) : String :=
  let counts := t.entries.map fun (item, n) => Text.quoted item ++ ": " ++ toString n
  "\x7b" ++ ", ".intercalate counts ++ "\x7d"

/-- Position, variables and inventory. -/
def debugText (s : Session Ledger) : String :=
  let items := s.host.inventory
  let inventory := if items.isEmpty then [] else ["inventory=" ++ inventoryText items]
  lines <| ["[debug]", "pc=" ++ toString s.state.pc] ++
    s.state.locals.listing.map ("local " ++ ·) ++
    s.state.globals.listing.map ("global " ++ ·) ++ inventory ++ [""]

def turnText (t : Turn) : String :=
  lines <| t.output.effects.flatMap effectText ++
    match t.saveError with
    | some e => ["[Warning: progress could not be saved: " ++ e.message ++ "]"]
    | none => []

namespace Player

/-- Prints the changes of a turn. A pause means that the turn set its line, so the line is
shown even if it is the same as before. -/
def showTurn (p : Player) (t : Turn) : Player × String :=
  let view := if p.session.state.status = .awaiting .advance then p.view.forgetLine else p.view
  let (view, delta) := view.apply p.session.state.screen
  ({ p with view },
    delta.render ++ turnText t ++ (if p.options.debug then debugText p.session else ""))

/-- Asks for what the session waits for, or ends the game. -/
def prompt (p : Player) : String × Next :=
  match p.session.state.status with
  | .awaiting .choice => (choicesText p.session.state.screen.choices, .waiting p)
  | .awaiting .advance => ("", .waiting p)
  | .finished .idleChatExhausted => (lines ["(nothing more to talk about)"], .over none)
  | .finished _ => (lines ["", "== THE END =="], .over none)
  | .aborted cause => ("", .over (some ("Script aborted: " ++ cause.message)))
  | .idle | .running => ("", .waiting p)

/-- What follows a turn. -/
def afterTurn (p : Player) (result : Session Ledger × Except TurnError Turn) : String × Next :=
  match result with
  | (_, .error e) => ("", .over (some e.message))
  | (session, .ok turn) =>
    let (p, shown) := showTurn { p with session } turn
    let (asked, next) := p.prompt
    (shown ++ asked, next)

variable {m : Type → Type} [Monad m]

/-- Saves after an input, shows the turn and asks on. -/
def turn (store : Store m) (p : Player) (log : List Journal.Entry)
    (step : Session Ledger × Except InputError Output) : m (Report × Next) := do
  let result ← Autosave.after store step
  let saved : Except StoreError Unit := match result.2 with
    | .ok t => match t.saveError with
      | some e => .error e
      | none => .ok ()
    | .error t => match t.saveError with
      | some e => .error e
      | none => .ok ()
  let (out, next) := p.afterTurn result
  return (⟨out, log ++ Journal.ofFlush p.options.saveDir step.1 saved⟩, next)

/-- Runs on without a line. -/
def start (store : Store m) (p : Player) : m (Report × Next) :=
  p.turn store (Journal.ofStart p.session) p.session.start

def submit (store : Store m) (p : Player) (input : Input) : m (Report × Next) :=
  p.turn store (Journal.ofSubmit p.session input) (p.session.submit input)

/-- Stops and saves. -/
def quit (store : Store m) (p : Player) : m (Report × Next) := do
  let stopped := p.session.stop
  let (_, saved) ← Autosave.flush store stopped
  let log := Journal.ofStop p.session ++ Journal.ofFlush p.options.saveDir stopped saved
  match saved with
  | .error e => return (⟨"", log⟩, .over (some e.report))
  | .ok () => return (⟨lines ["Progress saved. Goodbye!"], log⟩, .over none)

/-- What a line does at a choice: the label it picks, or quitting; all else is asked again. -/
inductive Pick where
  | label (label : String)
  | quit
  | again
deriving BEq, DecidableEq, Repr

def pick (options : List ChoiceOption) (line : String) : Pick :=
  match Answer.ofLine line with
  | .quit => .quit
  | .option index =>
    match options[index]? with
    | some o => .label o.label
    | none => .again
  | _ => .again

/-- Takes a typed line. -/
def answer (store : Store m) (p : Player) (line : String) : m (Report × Next) :=
  match p.session.state.status with
  | .awaiting .choice =>
    let options := p.session.state.screen.choices
    match pick options line with
    | .label label => p.submit store (.choose label)
    | .quit => p.quit store
    | .again =>
      let text := "Invalid choice. Enter 1-" ++ toString options.length ++ " or 'q'."
      return (⟨lines [text] ++ askForChoice, []⟩, .waiting p)
  | .awaiting .advance =>
    match Answer.ofLine line with
    | .goOn => p.submit store .advance
    | .quit => p.quit store
    | _ => return (⟨lines ["Press Enter to continue, or 'q' to quit."], []⟩, .waiting p)
  | _ => p.start store

/-! ### The whole game -/

/-- The entity of the sessions that are played here, by the name of the script. -/
def entityOf (s : Script) : Entity := ⟨"script", s.name⟩

/-- Opens a script that has been read, and plays up to the first question. -/
def enter (store : Store m) (o : Options) (entropy : UInt64) (s : Script) : m (Report × Next) := do
  let program := s.program
  let identity : Identity := ⟨entityOf s, "cli-player", !o.night⟩
  let settings : Settings := { pauseOnLine := true }
  let noted := Journal.ofProgram program
  match ← Autosave.load store program identity ({} : Ledger) settings entropy with
  | .error e => return (⟨"", noted⟩, .over (some e.report))
  | .ok session =>
    let greeting := banner s ++ (if 0 < session.state.pc then resuming else "")
    let (report, next) ← start store { options := o, session }
    return (⟨greeting, noted ++ Journal.ofOpening session⟩ ++ report, next)

/-- What is said to be wrong with texts that do not read. -/
structure Complaints where
  script : String → String
  book : String → String

/-- The store that the options name. -/
def storeOf (disk : Disk m) (o : Options) (explain : Complaints) : Store m :=
  Save.folder explain.book disk o.saveDir

/-- Opens a script and plays up to the first question. `fresh` is the identifier of a script that
has none, `entropy` the seed of the session. -/
def begin (disk : Disk m) (path : String) (o : Options) (explain : Complaints) (fresh : String)
    (entropy : UInt64) : m (Report × Next) := do
  match ← disk.read path with
  | .error fault =>
    return ({}, .over (some ("Failed to read script '" ++ path ++ "': " ++ fault.message)))
  | .ok text =>
    let file := (Path.fileName? path).getD "script.json"
    match Script.ofText explain.script text file fresh with
    | .error e => return ({}, .over (some e.report))
    | .ok script =>
      let (report, next) ← enter (storeOf disk o explain) o entropy script
      return (⟨"", Journal.ofText text script⟩ ++ report, next)

/-- Plays on with typed lines until the game is over or they are used up. -/
def feed (store : Store m) : List String → Report → Next → m (Report × Next)
  | line :: rest, report, .waiting p => do
    let (more, next) ← p.answer store line
    feed store rest (report ++ more) next
  | _, report, next => return (report, next)

end Player

end Parley.Terminal
