/-
  Parley.Save.Store

  Save stores. A store loads the book of an entity and merges records into it; what it works
  on is the monad's affair. This module has the store in memory, and one whose saves fail as
  a plan says.
-/
import Parley.Save.Book

namespace Parley

/-- Why a store does not load or save. -/
inductive StoreError where
  /-- The medium failed; `cause` is what it reported. -/
  | io (message cause : String)
  /-- What was stored is no book; `cause` says what is wrong with it. -/
  | corrupt (message cause : String)
deriving BEq, DecidableEq, Repr

namespace StoreError

def message : StoreError → String
  | .io message _ => "IO error: " ++ message
  | .corrupt message _ => "Serialization error: " ++ message

/-- The message with its cause. -/
def report : StoreError → String
  | .io message cause => "IO error: " ++ message ++ ": " ++ cause
  | .corrupt message cause => "Serialization error: " ++ message ++ ": " ++ cause

end StoreError

/-- Keeps the progress of sessions, a book for each entity. -/
structure Store (m : Type → Type) where
  /-- The book of an entity; the empty book if nothing was saved. -/
  load : Entity → m (Except StoreError Book)
  /-- Merges a record into the book of its entity. -/
  save : Record → m (Except StoreError Unit)

/-! ### In memory -/

/-- Books under their entities. -/
structure Memory where
  books : List (Entity × Book) := []

namespace Memory

def load (m : Memory) (e : Entity) : Book := (m.books.lookup e).getD {}

def save (m : Memory) (r : Record) : Memory :=
  let e := r.global.entity
  ⟨Book.replaceFirst (·.1 == e) (e, (m.load e).upsert r) m.books⟩

def store : Store (StateM Memory) where
  load e := do return .ok ((← get).load e)
  save r := do
    modify (·.save r)
    return .ok ()

end Memory

/-! ### With outages -/

/-- A memory whose saves fail where the plan says so; behind its end they succeed. -/
structure Unsteady where
  /-- For each save to come, whether it fails. -/
  outages : List Bool
  memory : Memory := {}

namespace Unsteady

def busy : StoreError := .io "device busy" "device busy"

def store : Store (StateM Unsteady) where
  load e := do return .ok ((← get).memory.load e)
  save r := do
    let u ← get
    match u.outages with
    | true :: rest =>
      set { u with outages := rest }
      return .error busy
    | plan =>
      set (⟨plan.tail, u.memory.save r⟩ : Unsteady)
      return .ok ()

end Unsteady

end Parley
