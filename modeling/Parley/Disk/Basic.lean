/-
  Parley.Disk.Basic

  What the library asks of a disk: to read and write whole texts, and to make directories.
  Paths are texts with `/` between their parts.
-/

namespace Parley

/-- Why a disk refuses. -/
inductive Fault where
  | notFound
  | alreadyThere
  | notDirectory
  | isDirectory
  | nameTooLong
  | tooManyLinks
  /-- The content is not UTF-8. -/
  | notText
  /-- Anything else, in the words of the system. -/
  | other (text : String)
deriving BEq, DecidableEq, Repr

def Fault.message : Fault → String
  | .notFound => "No such file or directory (os error 2)"
  | .alreadyThere => "File exists (os error 17)"
  | .notDirectory => "Not a directory (os error 20)"
  | .isDirectory => "Is a directory (os error 21)"
  | .nameTooLong => "File name too long (os error 36)"
  | .tooManyLinks => "Too many levels of symbolic links (os error 40)"
  | .notText => "stream did not contain valid UTF-8"
  | .other text => text

structure Disk (m : Type → Type) where
  read : String → m (Except Fault String)
  write : String → String → m (Except Fault Unit)
  /-- Makes a directory and those above it; one that is there will do. -/
  makeDirs : String → m (Except Fault Unit)

namespace Path

/-- A name inside a directory; the empty directory is the current one. -/
def join (dir name : String) : String :=
  if dir.isEmpty then name
  else if dir.toList.getLast? = some '/' then dir ++ name
  else dir ++ "/" ++ name

/-- The parts of a path between its slashes. A slash at the end asks for a directory, as `.`
does. -/
def parts (path : String) : List String :=
  let names := path.splitOn "/"
  let kept := names.filter (· ≠ "")
  if names.getLast? = some "" ∧ kept ≠ [] then kept ++ ["."] else kept

/-- The last part of a path that names something; none if that is `..` or there is none. -/
def fileName? (path : String) : Option String :=
  match ((path.splitOn "/").filter fun n => n ≠ "" ∧ n ≠ ".").getLast? with
  | some ".." => none
  | name => name

end Path

end Parley
