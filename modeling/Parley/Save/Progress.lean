/-
  Parley.Save.Progress

  Between a state and its saved progress. A session that ended by itself is saved at
  position 0, which means: from its checkpoint if it has one, else from the beginning.
-/
import Parley.Save.Book
import Parley.Program

namespace Parley

namespace LocalRecord

/-- Where a session with this record starts. -/
def startingPoint (r : LocalRecord) (p : Program) : Nat :=
  if r.counter ≠ 0 then r.counter else (r.checkpoint.bind p.target).getD 0

end LocalRecord

namespace State

/-- Takes position and global variables from a book. -/
def load (s : State) (i : Identity) (p : Program) (b : Book) : State :=
  { s with
    globals := match b.findGlobal i.entity with
      | some r => r.scope
      | none => .empty
    pc := match b.findLocal i with
      | some r => r.startingPoint p
      | none => 0 }

/-- The position that is saved. -/
def savedCounter (s : State) : Nat :=
  match s.status with
  | .finished .stopped => s.pc
  | .finished _ => 0
  | .aborted _ => 0
  | _ => s.pc

/-- The checkpoint that is saved: the text in the variable. -/
def savedCheckpoint (s : State) (checkpointVar : String) : Option String :=
  match s.locals.get? checkpointVar with
  | some (.text label) => some label
  | _ => none

/-- The record of a state. -/
def save (s : State) (i : Identity) (checkpointVar : String) : Record where
  global := ⟨i.entity, s.globals⟩
  own := ⟨i.entity, i.uid, s.savedCounter, s.savedCheckpoint checkpointVar⟩

end State

end Parley
