/-
  Parley.Main

  The program: plays a script on the real disk and terminal.
-/
import Parley.Terminal.CommandLine
import Parley.Uuid

namespace Parley.Terminal

/-- A refusal of the system in our words. -/
def faultOf : IO.Error → Fault
  | .noFileOrDirectory .. => .notFound
  | .noSuchThing .. => .notFound
  | .alreadyExists .. => .alreadyThere
  | .inappropriateType _ code _ =>
    if code = 20 then .notDirectory
    else if code = 21 then .isDirectory
    else .other ("os error " ++ toString code)
  | e => .other (toString e)

/-- The result of an action on the disk. -/
def attempt {α : Type} (act : IO α) : IO (Except Fault α) := do
  try
    return .ok (← act)
  catch e =>
    return .error (faultOf e)

/-- The disk of the machine. -/
def machineDisk : Disk IO where
  read path := do
    match ← attempt (IO.FS.readBinFile path) with
    | .error e => return .error e
    | .ok bytes =>
      match String.fromUTF8? bytes with
      | some text => return .ok text
      | none => return .error .notText
  write path text := attempt (IO.FS.writeFile path text)
  makeDirs path := if path.isEmpty then return .ok () else attempt (IO.FS.createDirAll path)

/-- Prints to both channels. -/
def printConsole (c : Console) : IO Unit := do
  let stdout ← IO.getStdout
  let stderr ← IO.getStderr
  stderr.putStr c.err
  stderr.flush
  stdout.putStr c.out
  stdout.flush

/-- Takes lines until the game is over. The end of input reads as empty lines. -/
partial def converse (store : Store IO) (detailed : Bool) : Next → IO UInt32
  | .over none => return exitCode false
  | .over (some reason) => do
    printConsole { err := failureText reason }
    return exitCode true
  | .waiting p => do
    let line ← (← IO.getStdin).getLine
    let (report, next) ← p.answer store line
    printConsole (report.console detailed)
    converse store detailed next

/-- A seed from random bytes. -/
def seedOf (bytes : ByteArray) : UInt64 :=
  bytes.toList.foldl (fun s b => s * 256 + b.toUInt64) 0

/-- What a reader has against a text that it does not read. -/
def complaint {α : Type} (read : Decoder α) (text : String) : String :=
  match (Json.parse? text).map read with
  | none => "syntax error"
  | some (.error e) => e.message
  | some (.ok _) => "recursion limit exceeded"

def complaints : Player.Complaints := ⟨complaint Script.read, complaint Book.read⟩

/-- Plays or explains itself. -/
def runProgram (args : List String) : IO UInt32 := do
  match Command.parse args with
  | .error e =>
    printConsole e.console
    return exitCode true
  | .ok .help =>
    printConsole { out := usage }
    return exitCode false
  | .ok (.play path options) =>
    let detailed := options.debug || (← IO.getEnv "VNSCRIPT_DEBUG").isSome
    let fresh := Uuid.ofBytes (← IO.getRandomBytes 16).toList
    let seed := seedOf (← IO.getRandomBytes 8)
    let (report, next) ← Player.begin machineDisk path options complaints fresh seed
    printConsole (report.console detailed)
    converse (Player.storeOf machineDisk options complaints) detailed next

end Parley.Terminal

def main (args : List String) : IO UInt32 := Parley.Terminal.runProgram args
