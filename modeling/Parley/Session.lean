/-
  Parley.Session

  A session: one player's way through a program. It runs the engine, hands the effects of
  every run to its host, and notes when its progress is due to be saved: after a checkpoint,
  when the session ends, and when it is stopped.
-/
import Parley.Engine.Run
import Parley.Save.Progress
import Parley.Host

namespace Parley

structure Session (H : Type) where
  program : Program
  identity : Identity
  host : H
  settings : Settings
  state : State
  /-- Whether progress is due to be saved. -/
  due : Bool := false

namespace Session

variable {H : Type}

/-- A session that goes on from what the book holds. `entropy` is the seed if the settings
fix none. -/
def ofBook (program : Program) (identity : Identity) (host : H) (book : Book)
    (settings : Settings) (entropy : UInt64) : Session H :=
  let state : State := { seed := settings.seed.getD entropy, isDay := identity.isDay }
  { program, identity, host, settings, state := state.load identity program book }

section Running

variable [Host H]

/-- Runs on; the host gets the effects. -/
def run (s : Session H) : Session H × Output :=
  let (state, output) := Engine.run s.program s.settings s.state
  ({ s with state, host := Host.applyAll s.host output.effects,
            due := s.due || output.reachedCheckpoint }, output)

/-- Begins to execute; a session that waits is left as it is, one that has ended refuses. -/
def start (s : Session H) : Session H × Except InputError Output :=
  if s.state.status.isTerminal then (s, .error .alreadyEnded)
  else
    let status := match s.state.status with
      | .idle => Status.running
      | status => status
    let (s, output) := run { s with state := { s.state with status } }
    (s, .ok output)

/-- Applies an input and runs on. An input that is refused by a session that has ended makes
its progress due, whether or not the input ended it. -/
def submit (s : Session H) (input : Input) : Session H × Except InputError Output :=
  match Engine.resume s.program s.state input with
  | (state, .error e) => ({ s with state, due := s.due || state.status.isTerminal }, .error e)
  | (state, .ok ()) =>
    let (s, output) := run { s with state }
    (s, .ok output)

def choose (s : Session H) (label : String) : Session H × Except InputError Output :=
  s.submit (.choose label)

def advance (s : Session H) : Session H × Except InputError Output := s.submit .advance

end Running

/-- Stops the session from outside; its progress is kept. -/
def stop (s : Session H) : Session H :=
  { s with state := Engine.stop s.state, due := s.due || !s.state.status.isTerminal }

/-- Day and night may change between runs. -/
def setDay (s : Session H) (isDay : Bool) : Session H :=
  { s with identity := { s.identity with isDay }, state := { s.state with isDay } }

/-- The progress so far. -/
def progress (s : Session H) : Record := s.state.save s.identity s.settings.checkpointVar

/-- The progress, while it is due to be saved. -/
def pending (s : Session H) : Option Record := if s.due then some s.progress else none

/-- The due progress has been saved. -/
def saved (s : Session H) : Session H := { s with due := false }

/-- Hands out the due progress, once. -/
def takePending (s : Session H) : Session H × Option Record :=
  match s.pending with
  | none => (s, none)
  | some record => (s.saved, some record)

end Session

end Parley
