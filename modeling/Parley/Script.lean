/-
  Parley.Script

  Scripts as they are kept on disk: the action records of a program with a name, the events
  that trigger it, and metadata. Every script has an identifier, which is made up if its text
  gives none.
-/
import Parley.Program
import Parley.Json.Reader

namespace Parley

structure Script where
  name : String := ""
  description : String := ""
  /-- What sets the script off: an event and the value it has to have. -/
  triggers : Table String := .empty
  metadata : Table String := .empty
  requiredMods : List String := []
  assetDir : Option String := none
  /-- The action records, in order. -/
  records : List Json := []

/-- Why there is no script in a text. -/
inductive ScriptError where
  /-- The text is no script; `cause` says what is wrong with it. -/
  | invalidText (file cause : String)
  | missingId (file : String)
deriving BEq, DecidableEq, Repr

namespace ScriptError

def message : ScriptError → String
  | .invalidText file cause => "invalid script JSON in " ++ file ++ ": " ++ cause
  | .missingId file => "script " ++ file ++ " has no valid uuid"

/-- The message, and its cause once more. -/
def report : ScriptError → String
  | .invalidText file cause => (invalidText file cause).message ++ ": " ++ cause
  | .missingId file => (missingId file).message

end ScriptError

namespace Script

def fields : Fields [String, String, Table String, Table String, List String, Option String,
    List Json] :=
  .cons (.withDefault "name" Decode.text "") <|
  .cons (.withDefault "description" Decode.text "") <|
  .cons (.withDefault "triggers" (Decode.table Decode.text) .empty) <|
  .cons (.withDefault "metadata" (Decode.table Decode.text) .empty) <|
  .cons (.withDefault "required_mods" Decode.texts []) <|
  .cons (.withDefault "asset_dir" (Decode.option Decode.text) none) <|
  .cons (.withDefault "fsm" (Decode.list Decode.any) []) .nil

def read : Decoder Script := fun j =>
  (fields.read "struct Script" j).map
    fun (name, description, triggers, metadata, requiredMods, assetDir, records, ()) =>
      { name, description, triggers, metadata, requiredMods, assetDir, records }

def toJson (s : Script) : Json :=
  .obj [("name", .str s.name), ("description", .str s.description),
    ("triggers", Json.ofTable .str s.triggers), ("metadata", Json.ofTable .str s.metadata),
    ("required_mods", .texts s.requiredMods), ("asset_dir", Json.ofOption .str s.assetDir),
    ("fsm", .arr s.records)]

/-! ### Defaults -/

/-- A file name without the ending `.json`. -/
def stem (file : String) : String :=
  let chars := file.toList
  let ending := ".json".toList
  if ending.isSuffixOf chars then String.ofList (chars.take (chars.length - ending.length))
  else file

/-- The identifier, empty if there is none. -/
def id (s : Script) : String := (s.metadata.get? "uuid").getD ""

/-- Whether the script lacks an identifier. -/
def isAnonymous (s : Script) : Bool := s.id.isEmpty

/-- Sets an entry that is not there. -/
def orDefault (t : Table String) (name value : String) : Table String :=
  if t.contains name then t else t.insert name value

/-- Fills in what the text leaves out: the name from the file, the identifier `fresh`, and
the usual metadata. -/
def complete (s : Script) (file fresh : String) : Script :=
  let metadata := if s.isAnonymous then s.metadata.insert "uuid" fresh else s.metadata
  { s with
    name := if s.name.isEmpty then stem file else s.name
    metadata := orDefault (orDefault metadata "creator" "unknown") "version" "0.0.1" }

/-- Completes a script, which then has to have an identifier. -/
def finish (s : Script) (file fresh : String) : Except ScriptError Script :=
  let s := s.complete file fresh
  if s.isAnonymous then .error (.missingId file) else .ok s

/-! ### Texts -/

/-- How deep arrays and objects may stand inside one another in a script's text. -/
def deepest : Nat := 127

/-- The script that a text spells. Its records stand two levels down. -/
def decode? (text : String) : Option Script := do
  let j ← Json.parse? text
  let s ← (read j).toOption
  if s.records.all fun record => record.depth + 2 ≤ deepest then some s else none

/-- Reads a script off its text and completes it. `explain` says what is wrong with a text that
is no script. -/
def ofText (explain : String → String) (text file fresh : String) : Except ScriptError Script :=
  match decode? text with
  | none => .error (.invalidText file (explain text))
  | some s => s.finish file fresh

/-! ### Use -/

def trigger? (s : Script) (key : String) : Option String := s.triggers.get? key

def program (s : Script) : Program := .load s.records

end Script

end Parley
