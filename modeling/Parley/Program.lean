/-
  Parley.Program

  A loaded script: one slot for each record, in order. A record that does not read keeps
  its position, and its error is met only when execution gets there. The labels are indexed
  once: a label that is defined again stands for the later position.
-/
import Parley.Action.Record
import Parley.Table

namespace Parley

/-- What stands at a position of a program. -/
inductive Slot where
  | action (a : Action)
  | malformed (tag reason : String)

/-- What a position holds; every position past the last slot is the end. -/
inductive Fetch where
  | action (a : Action)
  | malformed (tag reason : String)
  | endOfProgram

namespace Slot

/-- The tag that a record shows, whether or not the rest of it reads. -/
def shownTag (record : Json) : String :=
  match record.get? "type" with
  | some (.str tag) => tag
  | _ => "<missing>"

def ofRecord (record : Json) : Slot :=
  match Action.read record with
  | .ok a => .action a
  | .error e => .malformed (shownTag record) e.message

/-- The label that the slot defines. -/
def labelName? : Slot → Option String
  | .action a => a.labelName?
  | .malformed .. => none

end Slot

/-- What is known of the labels, once a slot is entered: a label that it defines stands for its
position from now on. -/
def Program.enter (labels : Table Nat) (slot : Slot) (position : Nat) : Table Nat :=
  match slot.labelName? with
  | some name => labels.insert name position
  | none => labels

/-- The labels that slots define, with their positions. -/
def Program.index (slots : List Slot) : Table Nat :=
  slots.zipIdx.foldl (fun labels (slot, position) => Program.enter labels slot position) .empty

/-- The slots of a script, and the index of its labels. -/
structure Program where
  slots : Array Slot
  labels : Table Nat
  indexed : labels = Program.index slots.toList

namespace Program

/-- The program with the given slots. -/
def ofSlots (slots : List Slot) : Program where
  slots := slots.toArray
  labels := index slots
  indexed := rfl

/-- Loads a program from its records. -/
def load (records : List Json) : Program := ofSlots (records.map Slot.ofRecord)

def ofActions (actions : List Action) : Program := ofSlots (actions.map Slot.action)

def size (p : Program) : Nat := p.slots.size

def fetch (p : Program) (position : Nat) : Fetch :=
  match p.slots[position]? with
  | some (.action a) => .action a
  | some (.malformed tag reason) => .malformed tag reason
  | none => .endOfProgram

/-- The position a label stands for. -/
def resolve (p : Program) (label : String) : Option Nat := p.labels.get? label

/-- The position just past a label, where execution goes on after a jump. -/
def target (p : Program) (label : String) : Option Nat := (p.resolve label).map (· + 1)

/-- How many different labels there are. -/
def labelCount (p : Program) : Nat := p.labels.size

end Program

end Parley
