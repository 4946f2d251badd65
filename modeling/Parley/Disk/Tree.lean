/-
  Parley.Disk.Tree

  A disk in memory: files, directories and symbolic links under their places in a tree. It
  lets everything that works on a disk be run and reasoned about without one.
-/
import Parley.Disk.Basic

namespace Parley

/-- What a place of the tree holds. -/
inductive Node where
  | file (content : ByteArray)
  | folder
  | link (target : String)

/-- Nodes under their places, which are lists of names from the root. -/
structure Tree where
  nodes : List (List String × Node) := []

namespace Tree

/-- The node at a place; the root is a folder. -/
def node? (t : Tree) (place : List String) : Option Node :=
  if place = [] then some .folder else t.nodes.lookup place

/-- Puts a node at a place. -/
def put (t : Tree) (place : List String) (n : Node) : Tree :=
  ⟨(place, n) :: t.nodes.filter (·.1 ≠ place)⟩

/-- The longest name, in bytes. -/
def longestName : Nat := 255

/-- Follows names from a folder: the place they lead to, and the node there. The last name
may be free. A link is followed by way of its target, at most `links` of them; a link at the
end is followed only on request. -/
def walk (t : Tree) (followLast : Bool) (links : Nat) (here : List String) :
    List String → Except Fault (List String × Option Node)
  | [] => .ok (here, some .folder)
  | name :: rest =>
    if name = "." then t.walk followLast links here rest
    else if name = ".." then t.walk followLast links here.dropLast rest
    else if longestName < name.utf8ByteSize then .error .nameTooLong
    else
      let place := here ++ [name]
      match t.node? place with
      | none => if rest = [] then .ok (place, none) else .error .notFound
      | some .folder => t.walk followLast links place rest
      | some (.file content) =>
        if rest = [] then .ok (place, some (.file content)) else .error .notDirectory
      | some (.link target) =>
        if rest = [] ∧ !followLast then .ok (place, some (.link target))
        else
          match links with
          | 0 => .error .tooManyLinks
          | links + 1 =>
            let start := if target.toList.head? = some '/' then [] else here
            t.walk followLast links start (Path.parts target ++ rest)
termination_by names => (links, names.length)

/-- How many links may lie on one way. -/
def mostLinks : Nat := 40

/-- Where a path leads. The empty path leads nowhere. -/
def locate (t : Tree) (followLast : Bool) (path : String) :
    Except Fault (List String × Option Node) :=
  if path.isEmpty then .error .notFound else t.walk followLast mostLinks [] (Path.parts path)

def isFolder (t : Tree) (path : String) : Bool :=
  match t.locate true path with
  | .ok (_, some .folder) => true
  | _ => false

def read (t : Tree) (path : String) : Except Fault String :=
  match t.locate true path with
  | .error e => .error e
  | .ok (_, none) => .error .notFound
  | .ok (_, some (.file content)) =>
    match String.fromUTF8? content with
    | some text => .ok text
    | none => .error .notText
  | .ok (_, some _) => .error .isDirectory

/-- Writes a file, which may be new; the directory has to be there. -/
def writeBytes (t : Tree) (path : String) (content : ByteArray) : Tree × Except Fault Unit :=
  match t.locate true path with
  | .error e => (t, .error e)
  | .ok (_, some .folder) => (t, .error .isDirectory)
  | .ok (place, _) => (t.put place (.file content), .ok ())

def write (t : Tree) (path text : String) : Tree × Except Fault Unit :=
  t.writeBytes path text.toUTF8

/-- Makes one directory, in a directory that is there. -/
def makeDir (t : Tree) (names : List String) : Tree × Except Fault Unit :=
  match t.walk false mostLinks [] names with
  | .error e => (t, .error e)
  | .ok (_, some _) => (t, .error .alreadyThere)
  | .ok (place, none) => (t.put place .folder, .ok ())

/-- Whether names lead to a folder. -/
def leadsToFolder (t : Tree) (names : List String) : Bool :=
  match t.walk true mostLinks [] names with
  | .ok (_, some .folder) => true
  | _ => false

/-- Makes a directory unless it is there. -/
def ensureDir (t : Tree) (names : List String) : Tree × Except Fault Unit :=
  match t.makeDir names with
  | (t, .ok ()) => (t, .ok ())
  | (t, .error e) => if t.leadsToFolder names then (t, .ok ()) else (t, .error e)

/-- Makes a directory and those above it; the names are given last first. -/
def makeDirsUp (t : Tree) : List String → Tree × Except Fault Unit
  | [] => (t, .ok ())
  | name :: above =>
    let names := (name :: above).reverse
    match t.makeDir names with
    | (t, .error .notFound) =>
      match t.makeDirsUp above with
      | (t, .error e) => (t, .error e)
      | (t, .ok ()) => t.ensureDir names
    | _ => t.ensureDir names

def makeDirs (t : Tree) (path : String) : Tree × Except Fault Unit :=
  t.makeDirsUp ((Path.parts path).filter (· ≠ ".")).reverse

/-- The names directly below a place. -/
def namesIn (t : Tree) (place : List String) : List String :=
  t.nodes.filterMap fun (p, _) =>
    match p.getLast? with
    | some name => if p.dropLast = place then some name else none
    | none => none

/-- The names in a directory, in no particular order. -/
def list (t : Tree) (path : String) : Except Fault (List String) :=
  match t.locate true path with
  | .error e => .error e
  | .ok (_, none) => .error .notFound
  | .ok (place, some .folder) => .ok (t.namesIn place)
  | .ok (_, some _) => .error .notDirectory

/-- The texts of the files in a directory by name; none if it is no directory. Entries that
do not read are left out. -/
def texts? (t : Tree) (path : String) : Option (List (String × String)) :=
  match t.list path with
  | .error _ => none
  | .ok names => some <| names.filterMap fun name =>
    match t.read (Path.join path name) with
    | .ok text => some (name, text)
    | .error _ => none

/-- The tree as a disk. -/
def disk : Disk (StateM Tree) where
  read path := do return (← get).read path
  write path text := modifyGet fun t => Prod.swap (t.write path text)
  makeDirs path := modifyGet fun t => Prod.swap (t.makeDirs path)

end Tree

end Parley
