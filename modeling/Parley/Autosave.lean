/-
  Parley.Autosave

  Sessions that save themselves. After every input the progress is written to a store if it
  is due. A save that fails does not end the session: the failure is reported next to the
  result of the input, and the progress stays due for the next attempt.
-/
import Parley.Session
import Parley.Save.Store

namespace Parley

/-- The result of an input, and the failure to save it if there was one. -/
structure Turn where
  output : Output
  saveError : Option StoreError

/-- An input that was refused; the progress it made due may have failed to be saved too. -/
structure TurnError where
  input : InputError
  saveError : Option StoreError
deriving BEq, DecidableEq, Repr

def TurnError.message (e : TurnError) : String :=
  match e.saveError with
  | none => e.input.message
  | some s => e.input.message ++ " (progress could not be saved: " ++ s.message ++ ")"

namespace Autosave

variable {m : Type → Type} [Monad m] {H : Type}

/-- A session that goes on from what the store holds. -/
def load (store : Store m) (program : Program) (identity : Identity) (host : H)
    (settings : Settings) (entropy : UInt64) : m (Except StoreError (Session H)) := do
  match ← store.load identity.entity with
  | .error e => return .error e
  | .ok book => return .ok (.ofBook program identity host book settings entropy)

/-- Saves the progress if it is due; it stays due if that fails. -/
def flush (store : Store m) (s : Session H) : m (Session H × Except StoreError Unit) := do
  match s.pending with
  | none => return (s, .ok ())
  | some record =>
    match ← store.save record with
    | .error e => return (s, .error e)
    | .ok () => return (s.saved, .ok ())

/-- Saves after an input. -/
def after (store : Store m) (step : Session H × Except InputError Output) :
    m (Session H × Except TurnError Turn) := do
  let (s, saved) ← flush store step.1
  let saveError := match saved with
    | .ok () => none
    | .error e => some e
  match step.2 with
  | .ok output => return (s, .ok ⟨output, saveError⟩)
  | .error input => return (s, .error ⟨input, saveError⟩)

section Running

variable [Host H]

def start (store : Store m) (s : Session H) : m (Session H × Except TurnError Turn) :=
  after store s.start

def choose (store : Store m) (s : Session H) (label : String) :
    m (Session H × Except TurnError Turn) :=
  after store (s.choose label)

def advance (store : Store m) (s : Session H) : m (Session H × Except TurnError Turn) :=
  after store s.advance

end Running

/-- Stops the session and saves where it stopped. -/
def stop (store : Store m) (s : Session H) : m (Session H × Except StoreError Unit) :=
  flush store s.stop

end Autosave

end Parley
