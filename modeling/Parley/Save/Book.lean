/-
  Parley.Save.Book

  Saved progress. The global variables of an entity are one record, the position and the
  last checkpoint of each of its sessions another; a book holds the records of both kinds.
  A book may come from a file and then hold a key twice: the first record of a key counts.
-/
import Parley.State.Basic

namespace Parley

/-- The global variables of an entity. -/
structure GlobalRecord where
  entity : Entity
  scope : Scope
deriving BEq

/-- Where a session goes on. -/
structure LocalRecord where
  entity : Entity
  uid : String
  counter : Nat
  checkpoint : Option String
deriving BEq, DecidableEq, Repr

/-- What is written at a checkpoint. -/
structure Record where
  global : GlobalRecord
  own : LocalRecord
deriving BEq

structure Book where
  globals : List GlobalRecord := []
  locals : List LocalRecord := []
deriving BEq, Inhabited

namespace LocalRecord

/-- Whether two records belong to the same session. -/
def sameKey (a b : LocalRecord) : Bool := a.entity == b.entity && a.uid == b.uid

/-- Whether the record belongs to the identity. -/
def isOf (a : LocalRecord) (i : Identity) : Bool := a.entity == i.entity && a.uid == i.uid

end LocalRecord

namespace Book

variable {α : Type}

/-- Replaces the first element that `same` marks, or puts the new one at the end. -/
def replaceFirst (same : α → Bool) (new : α) : List α → List α
  | [] => [new]
  | a :: rest => if same a then new :: rest else a :: replaceFirst same new rest

def findGlobal (b : Book) (e : Entity) : Option GlobalRecord := b.globals.find? (·.entity == e)

def findLocal (b : Book) (i : Identity) : Option LocalRecord := b.locals.find? (·.isOf i)

/-- Enters both parts of a record under their keys. -/
def upsert (b : Book) (r : Record) : Book where
  globals := replaceFirst (·.entity == r.global.entity) r.global b.globals
  locals := replaceFirst (·.sameKey r.own) r.own b.locals

end Book

end Parley
