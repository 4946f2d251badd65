/-
  Parley.State.Basic

  The state of a session: where it is in the program, its status, its variables, what is on
  screen, and the seed of the next draw.
-/
import Parley.Screen

namespace Parley

/-- What a suspended session waits for. -/
inductive Wait where
  /-- One of the pending choices. -/
  | choice
  /-- The player to go on past a line. -/
  | advance
deriving BEq, DecidableEq, Repr

inductive FinishReason where
  | endOfScript
  | finishAction
  | idleChatExhausted
  | stopped
deriving BEq, DecidableEq, Repr

/-- Why a session was aborted. -/
inductive Abort where
  | malformedAction (position : Nat) (tag reason : String)
  | unresolvedLabel (label : String) (position : Nat)
  | stepLimit (limit : Nat)
deriving BEq, DecidableEq, Repr

def Abort.message : Abort → String
  | .malformedAction position tag reason =>
    "malformed '" ++ tag ++ "' action at position " ++ toString position ++ ": " ++ reason
  | .unresolvedLabel label position =>
    "unresolved label '" ++ label ++ "' referenced at position " ++ toString position
  | .stepLimit limit =>
    "step limit of " ++ toString limit ++ " actions exceeded in a single run"

/-- The life of a session. -/
inductive Status where
  | idle
  | running
  | awaiting (wait : Wait)
  | finished (reason : FinishReason)
  | aborted (cause : Abort)
deriving BEq, DecidableEq, Repr

/-- Whether the session has ended. -/
def Status.isTerminal : Status → Bool
  | .finished _ => true
  | .aborted _ => true
  | _ => false

structure State where
  /-- The position of the next action. -/
  pc : Nat := 0
  status : Status := .idle
  locals : Scope := .empty
  globals : Scope := .empty
  screen : Screen := {}
  isDay : Bool := true
  seed : UInt64 := 0
deriving BEq

/-- Whom a session talks to; its global variables are kept under this. -/
structure Entity where
  type : String
  name : String
deriving BEq, DecidableEq, Repr

/-- Who a session belongs to. -/
structure Identity where
  entity : Entity
  uid : String
  isDay : Bool
deriving BEq, DecidableEq, Repr

/-- What the player or the host tells a session. -/
inductive Input where
  | choose (label : String)
  | advance
  | stop
deriving BEq, DecidableEq, Repr

/-- Why a session does not take an input. -/
inductive InputError where
  | notAwaitingChoice
  | notAwaitingAdvance
  | unknownChoice (label : String)
  | alreadyEnded
  | aborted (cause : Abort)
deriving BEq, DecidableEq, Repr

def InputError.message : InputError → String
  | .notAwaitingChoice => "session is not waiting for a choice"
  | .notAwaitingAdvance => "session is not waiting for the player to continue"
  | .unknownChoice label => "'" ++ label ++ "' is not one of the pending choices"
  | .alreadyEnded => "session has already ended"
  | .aborted cause => cause.message

/-- What the engine asks its host to do. -/
inductive Effect where
  | giveItem (item : String) (amount : Nat)
  | command (command : String)
  /-- A label to take up again was recorded, so progress should be saved. -/
  | checkpoint (label : Option String)
deriving BEq, DecidableEq, Repr

/-- How a step or a run ended. -/
inductive Outcome where
  /-- There is more to execute. -/
  | proceed
  | awaiting
  | finished
  | aborted (cause : Abort)
deriving BEq, DecidableEq, Repr

/-- The result of one run: what it ended with, and all it asked of the host. -/
structure Output where
  outcome : Outcome
  effects : List Effect
  /-- How many actions were executed. -/
  steps : Nat
deriving BEq, DecidableEq, Repr

def Effect.isCheckpoint : Effect → Bool
  | .checkpoint _ => true
  | _ => false

/-- Whether progress should be saved after the run. -/
def Output.reachedCheckpoint (o : Output) : Bool :=
  o.effects.any Effect.isCheckpoint ||
    match o.outcome with
    | .finished => true
    | .aborted _ => true
    | _ => false

def Output.hasEffects (o : Output) : Bool := !o.effects.isEmpty

end Parley
