/-
  Parley.Catalogue

  A catalogue: the scripts of a directory, each under its identifier. Loading takes the files
  in the order of their names, so of two scripts with one identifier the later file stays. A
  file that does not load is reported and does not stop the others.
-/
import Parley.Script
import Parley.Disk.Basic

namespace Parley

/-- A file that was not loaded. -/
structure LoadFailure where
  file : String
  reason : String
deriving BEq, DecidableEq, Repr

/-- Scripts under their identifiers. -/
structure Catalogue where
  scripts : Table Script := .empty

namespace Catalogue

def size (c : Catalogue) : Nat := c.scripts.size

def get? (c : Catalogue) (id : String) : Option Script := c.scripts.get? id

/-- Adds a script in place of one with the same identifier. -/
def insert (c : Catalogue) (s : Script) : Catalogue := ⟨c.scripts.insert s.id s⟩

/-- The scripts whose trigger has the value, by name. -/
def withTrigger (c : Catalogue) (key value : String) : List Script :=
  ((c.scripts.entries.map (·.2)).filter fun s => s.trigger? key == some value).mergeSort
    fun a b => !(b.name < a.name)

/-! ### Loading -/

/-- Whether a file of this name is loaded: `json` follows the last dot, and something comes
before it. -/
def isScriptFile (name : String) : Bool :=
  let chars := name.toList
  ".json".toList.isSuffixOf chars && chars.length > 5

/-- One file of a directory: its name, and what reading it gave. -/
structure Entry where
  file : String
  content : Except Fault String

variable (explain : String → String)

/-- The script in a file, or why there is none. `explain` says what is wrong with a text that is
no script. -/
def Entry.script? (e : Entry) (dir fresh : String) : Except String Script :=
  match e.content with
  | .error fault => .error ("Failed to read " ++ Path.join dir e.file ++ ": " ++ fault.message)
  | .ok text => (Script.ofText explain text e.file fresh).mapError ScriptError.message

/-- The script files of a directory, in the order of their names. -/
def scriptFiles (entries : List Entry) : List Entry :=
  (entries.filter fun e => isScriptFile e.file).mergeSort fun a b => !(b.file < a.file)

/-- Loads files one after another; `fresh` gives identifiers by the number of the file. -/
def loadFiles (dir : String) (fresh : Nat → String) :
    Nat → List Entry → Catalogue → Catalogue × List LoadFailure
  | _, [], c => (c, [])
  | n, e :: rest, c =>
    match e.script? explain dir (fresh n) with
    | .ok s => loadFiles dir fresh (n + 1) rest (c.insert s)
    | .error reason =>
      let (c, failures) := loadFiles dir fresh (n + 1) rest c
      (c, ⟨e.file, reason⟩ :: failures)

/-- The catalogue of a directory with the given entries, and the files that failed. -/
def ofEntries (dir : String) (fresh : Nat → String) (entries : List Entry) :
    Catalogue × List LoadFailure :=
  loadFiles explain dir fresh 0 (scriptFiles entries) {}

/-- What is reported of a directory that cannot be listed. -/
def unlisted (dir : String) (fault : Fault) : String :=
  "Failed to read script directory " ++ dir ++ ": " ++ fault.message

variable {m : Type → Type} [Monad m]

/-- Reads the script files among the names of a directory. -/
def readEntries (disk : Disk m) (dir : String) : List String → m (List Entry)
  | [] => return []
  | name :: rest => do
    if isScriptFile name then
      let content ← disk.read (Path.join dir name)
      return ⟨name, content⟩ :: (← readEntries disk dir rest)
    else readEntries disk dir rest

/-- Loads every script of a directory, given the names that listing it gave. -/
def loadDir (disk : Disk m) (dir : String) (fresh : Nat → String)
    (names : Except Fault (List String)) : m (Except String (Catalogue × List LoadFailure)) := do
  match names with
  | .error fault => return .error (unlisted dir fault)
  | .ok names => return .ok (ofEntries explain dir fresh (← readEntries disk dir names))

end Catalogue

end Parley
