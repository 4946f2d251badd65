/-
  Parley.Settings

  How the engine runs: whether it pauses after every line, how many actions one run may
  execute, the seed of its draws, and the names of the two local variables it keeps itself.
-/
import Parley.Json.Record

namespace Parley

structure Settings where
  pauseOnLine : Bool := false
  maxSteps : Nat := 10000
  /-- A fixed seed; without one a session is given its own. -/
  seed : Option UInt64 := none
  /-- The local variable with the labels that idle chat chooses from. -/
  unlockedVar : String := "unlocked_events"
  /-- The local variable with the last checkpoint. -/
  checkpointVar : String := "checkpoint"
deriving BEq, Inhabited

/-- A random seed: 64 bits. -/
def Decode.seed : Decoder UInt64 := fun j =>
  (Decode.natBelow (Nat.pow 2 64) "u64" j).map UInt64.ofNat

namespace Settings

def fields : Fields [Bool, Nat, Option UInt64, String, String] :=
  let default : Settings := {}
  .cons (.withDefault "pause_on_dialogue" Decode.bool default.pauseOnLine) <|
  .cons (.withDefault "max_steps_per_run" Decode.position default.maxSteps) <|
  .cons (.withDefault "rng_seed" (Decode.option Decode.seed) default.seed) <|
  .cons (.withDefault "unlocked_events_var" Decode.text default.unlockedVar) <|
  .cons (.withDefault "checkpoint_var" Decode.text default.checkpointVar) .nil

/-- Fields that are left out keep their defaults. -/
def read : Decoder Settings := fun j =>
  (fields.read "struct EngineConfig" j).map
    fun (pauseOnLine, maxSteps, seed, unlockedVar, checkpointVar, ()) =>
      { pauseOnLine, maxSteps, seed, unlockedVar, checkpointVar }

def toJson (s : Settings) : Json :=
  .obj [("pause_on_dialogue", .bool s.pauseOnLine), ("max_steps_per_run", .nat s.maxSteps),
    ("rng_seed", Json.ofOption (fun seed => .nat seed.toNat) s.seed),
    ("unlocked_events_var", .str s.unlockedVar), ("checkpoint_var", .str s.checkpointVar)]

end Settings

end Parley
