/-
  Parley.Terminal.CommandLine

  The command line: which script to play and how, and what is printed if that is not clear.
-/
import Parley.Terminal.Player

namespace Parley.Terminal

def usage : String :=
  lines ["vnscript - Dialogue Script Engine",
    "",
    "USAGE:",
    "    vnscript play <script.json> [--debug] [--night] [--saves <dir>]",
    "",
    "COMMANDS:",
    "    play <file>    Play a script in the terminal",
    "    --help, -h     Show this help message",
    "",
    "OPTIONS:",
    "    --debug          Show debug logs and session variables",
    "    --night          Play as if it were night",
    "    --saves <dir>    Save directory (default: saves)",
    "",
    "EXAMPLES:",
    "    vnscript play scripts/shopkeeper.json",
    "    vnscript play scripts/shopkeeper.json --night --debug"]

/-- Why a command line is not understood. -/
inductive UsageError where
  | noCommand
  | missingPath
  | missingDirectory
  | unknownOption (option : String)
  | unknownCommand (command : String)
deriving BEq, DecidableEq, Repr

/-- The complaint, if there is one beyond the usage text. -/
def UsageError.message? : UsageError → Option String
  | .noCommand => none
  | .missingPath => some "Missing script file path"
  | .missingDirectory => some "--saves needs a directory"
  | .unknownOption option => some ("Unknown option '" ++ option ++ "'")
  | .unknownCommand command => some ("Unknown command '" ++ command ++ "'")

inductive Command where
  | help
  | play (path : String) (options : Options)
deriving BEq, DecidableEq, Repr

/-- Reads options one after another. -/
def parseOptions : List String → Options → Except UsageError Options
  | [], o => .ok o
  | "--debug" :: rest, o => parseOptions rest { o with debug := true }
  | "--night" :: rest, o => parseOptions rest { o with night := true }
  | ["--saves"], _ => .error .missingDirectory
  | "--saves" :: dir :: rest, o => parseOptions rest { o with saveDir := dir }
  | option :: _, _ => .error (.unknownOption option)

def Command.parse : List String → Except UsageError Command
  | [] => .error .noCommand
  | ["play"] => .error .missingPath
  | "play" :: path :: rest => (parseOptions rest {}).map (.play path)
  | "--help" :: _ => .ok .help
  | "-h" :: _ => .ok .help
  | command :: _ => .error (.unknownCommand command)

/-! ### Channels -/

/-- The texts of standard output and standard error. -/
structure Console where
  out : String := ""
  err : String := ""

/-- The usage text, under the complaint if there is one. -/
def UsageError.console (e : UsageError) : Console where
  out := usage
  err := match e.message? with
    | some message => lines ["Error: " ++ message, ""]
    | none => ""

/-- What is printed of a report: details of the log only on request. -/
def Report.console (r : Report) (detailed : Bool) : Console where
  out := r.out
  err := lines ((r.log.filter fun e => detailed || !e.level.isDetail).map Journal.Entry.line)

/-- What is printed of a game that failed. -/
def failureText (reason : String) : String :=
  lines ["Error: Player mode failed", "Reason: " ++ reason]

/-- The exit code of a program that failed or not. -/
def exitCode (failed : Bool) : UInt32 := if failed then 1 else 0

variable {m : Type → Type} [Monad m]

/-- A whole run of the program on typed lines: the exit code and what is printed. Without a
code the lines were used up before the game was over. `detailed` asks for details in the
log, as the option does. -/
def runLines (disk : Disk m) (args : List String) (typed : List String) (detailed : Bool)
    (explain : Player.Complaints) (fresh : String) (entropy : UInt64) :
    m (Option UInt32 × Console) := do
  match Command.parse args with
  | .error e => return (some 1, e.console)
  | .ok .help => return (some 0, ⟨usage, ""⟩)
  | .ok (.play path options) =>
    let (report, next) ← Player.begin disk path options explain fresh entropy
    let store := Player.storeOf disk options explain
    let (report, next) ← Player.feed store typed report next
    let console := report.console (detailed || options.debug)
    match next with
    | .waiting _ => return (none, console)
    | .over none => return (some 0, console)
    | .over (some reason) =>
      return (some 1, { console with err := console.err ++ failureText reason })

end Parley.Terminal
