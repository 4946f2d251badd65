/-
  Parley.Host

  What a session runs in. A host receives items and commands, and says of each command whether
  it carried it out; whatever does so can be a host. Two are given here: a silent one ignores
  every request, and a ledger counts the items and records the commands that its policy allows.
-/
import Parley.State.Json
import Parley.Text.Blank

namespace Parley

/-- What can be the host of a session. -/
class Host (H : Type) where
  giveItem : H → String → Nat → H
  /-- The host after a command, and whether the command was carried out. -/
  runCommand : H → String → H × Bool

namespace Host

variable {H : Type} [Host H]

/-- Carries out one effect. -/
def apply (h : H) : Effect → H
  | .giveItem item amount => giveItem h item amount
  | .command command => (runCommand h command).1
  | .checkpoint _ => h

/-- Carries out the effects of a run, in order. A command that is refused holds up no other. -/
def applyAll (h : H) (effects : List Effect) : H := effects.foldl apply h

end Host

/-- The host that ignores every request. -/
inductive SilentHost where
  | silent
deriving BEq, DecidableEq, Repr

instance : Host SilentHost where
  giveItem h _ _ := h
  runCommand h _ := (h, false)

/-! ### Ledgers -/

/-- The commands that are refused: those that begin with one of the texts. -/
structure Policy where
  blocked : List String := ["/op", "/stop", "/ban"]
deriving BEq, DecidableEq, Repr

namespace Policy

/-- Whether a command may run. Leading white space does not hide what it begins with. -/
def allows (p : Policy) (command : String) : Bool :=
  let start := Text.dropBlank command.toList
  !p.blocked.any fun text => text.toList.isPrefixOf start

def fields : Fields [List String] :=
  .cons (.withDefault "blocked_prefixes" Decode.texts ({} : Policy).blocked) .nil

def read : Decoder Policy := fun j =>
  (fields.read "struct CommandPolicy" j).map fun (blocked, ()) => { blocked }

def toJson (p : Policy) : Json := .obj [("blocked_prefixes", .texts p.blocked)]

end Policy

/-- What a player holds, and the commands that were run. -/
structure Ledger where
  inventory : Table Nat := .empty
  policy : Policy := {}
  executed : List String := []

namespace Ledger

/-- The most of one item that can be held. -/
def most : Nat := Nat.pow 2 64 - 1

/-- How much of an item is held. -/
def count (l : Ledger) (item : String) : Nat := (l.inventory.get? item).getD 0

def giveItem (l : Ledger) (item : String) (amount : Nat) : Ledger :=
  { l with inventory := l.inventory.insert item (min most (l.count item + amount)) }

def runCommand (l : Ledger) (command : String) : Ledger × Bool :=
  if l.policy.allows command then ({ l with executed := l.executed ++ [command] }, true)
  else (l, false)

instance : Host Ledger where
  giveItem := giveItem
  runCommand := runCommand

end Ledger

end Parley
