/-
  Parley.Save.Folder

  The store in a directory: one file of JSON for each entity. Only a file that is not there
  reads as the empty book. A save makes the directory, reads the book, merges the record and
  writes the file; if one of these fails, nothing is written. `explain` says what is wrong with a
  text that is no book.
-/
import Parley.Save.Json
import Parley.Save.Store
import Parley.Save.FileName
import Parley.Disk.Basic

namespace Parley.Save

/-- The path of the file of an entity. -/
def filePath (base : String) (e : Entity) : String := Path.join base (fileName e)

variable (explain : String → String)

/-- The book in what reading its file gave. -/
def bookOf (path : String) : Except Fault String → Except StoreError Book
  | .error .notFound => .ok {}
  | .error e => .error (.io ("Failed to read save file " ++ path) e.message)
  | .ok text =>
    match Book.decode? text with
    | some book => .ok book
    | none => .error (.corrupt ("Failed to deserialize save file " ++ path) (explain text))

variable {m : Type → Type} [Monad m]

def loadFrom (disk : Disk m) (base : String) (e : Entity) : m (Except StoreError Book) := do
  let path := filePath base e
  return bookOf explain path (← disk.read path)

def saveTo (disk : Disk m) (base : String) (r : Record) : m (Except StoreError Unit) := do
  let path := filePath base r.global.entity
  match ← disk.makeDirs base with
  | .error e => return .error (.io ("Failed to create save directory " ++ base) e.message)
  | .ok () =>
    match bookOf explain path (← disk.read path) with
    | .error e => return .error e
    | .ok book =>
      match ← disk.write path (book.upsert r).encode with
      | .error e => return .error (.io ("Failed to write save file " ++ path) e.message)
      | .ok () => return .ok ()

/-- The store in a directory of a disk. -/
def folder (disk : Disk m) (base : String) : Store m where
  load := loadFrom explain disk base
  save := saveTo explain disk base

end Parley.Save
