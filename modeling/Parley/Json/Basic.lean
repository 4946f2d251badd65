/-
  Parley.Json.Basic

  JSON trees. The entries of an object keep the order of the text, and a name may occur
  more than once; `Json.sorted` is the tree in which every object is ascending by name and
  of repeated names the last entry stays. A number is an integer (of at most 64 bits, signed
  or not) or a float.
-/
import Parley.Table
import Parley.Number.Decimal

namespace Parley

/-- A number as JSON text spells it: `5` is an integer, `5.0` a float. -/
inductive Json.Number where
  | int (n : Int)
  | float (x : Float)
deriving BEq

inductive Json where
  | null
  | bool (b : Bool)
  | num (n : Json.Number)
  | str (s : String)
  | arr (items : List Json)
  | obj (entries : List (String × Json))
  /-- A well-formed literal that stands for no value: a number beyond the largest float, or
  a text with half of a surrogate pair. It may be skipped but not read. -/
  | unreadable

namespace Json

instance : Inhabited Json := ⟨null⟩

/-- An integer. -/
abbrev int (n : Int) : Json := .num (.int n)

/-- A natural number. -/
abbrev nat (n : Nat) : Json := .num (.int n)

abbrev float (x : Float) : Json := .num (.float x)

/-- `null` for an absent value. -/
def ofOption {α : Type} (f : α → Json) : Option α → Json
  | none => null
  | some a => f a

/-- A list of texts. -/
def texts (l : List String) : Json := .arr (l.map .str)

/-- An object with the entries of a table, in its order. -/
def ofTable {α : Type} (f : α → Json) (t : Table α) : Json :=
  .obj (t.entries.map fun (k, a) => (k, f a))

/-- The entry of an object under a name; of repeated names the first. -/
def get? (name : String) : Json → Option Json
  | .obj entries => Table.find name entries
  | _ => none

mutual

/-- Every object ascending by name, the last of repeated names kept. -/
def sorted : Json → Json
  | .arr items => .arr (sortedItems items)
  | .obj entries => .obj (sortedEntries entries [])
  | j => j

def sortedItems : List Json → List Json
  | [] => []
  | j :: rest => sorted j :: sortedItems rest

/-- Enters the entries one after another into those that are `done`. -/
def sortedEntries : List (String × Json) → List (String × Json) → List (String × Json)
  | [], done => done
  | (k, j) :: rest, done => sortedEntries rest (Table.put k (sorted j) done)

end

mutual

/-- How many arrays and objects stand inside one another. -/
def depth : Json → Nat
  | .arr items => itemsDepth items + 1
  | .obj entries => entriesDepth entries + 1
  | _ => 0

def itemsDepth : List Json → Nat
  | [] => 0
  | j :: rest => max (depth j) (itemsDepth rest)

def entriesDepth : List (String × Json) → Nat
  | [] => 0
  | (_, j) :: rest => max (depth j) (entriesDepth rest)

end

mutual

/-- Whether every literal of the tree stands for a value. -/
def isReadable : Json → Bool
  | .arr items => itemsReadable items
  | .obj entries => entriesReadable entries
  | .unreadable => false
  | _ => true

def itemsReadable : List Json → Bool
  | [] => true
  | j :: rest => isReadable j && itemsReadable rest

def entriesReadable : List (String × Json) → Bool
  | [] => true
  | (_, j) :: rest => isReadable j && entriesReadable rest

end

end Json

end Parley
