/-
  Parley.State.Json

  The JSON forms of states, inputs and effects. A variant without data is written as its
  name, one with data as an object with the name as its only entry.
-/
import Parley.State.Basic
import Parley.Settings

namespace Parley

/-- The fields of a variant whose data is an object. -/
def Fields.ofData {αs : List Type} (fs : Fields αs) : Option Json → Except DecodeError (Row αs)
  | some (.obj es) => fs.ofEntries es
  | some j => .error (.wrongType j "struct variant")
  | none => .error (.wrongType .null "struct variant")

/-- The data of a variant that has some. -/
def Decode.data {α : Type} (read : Decoder α) : Option Json → Except DecodeError α
  | some j => read j
  | none => .error (.wrongType .null "newtype variant")

/-! ### Status -/

def Wait.name : Wait → String
  | .choice => "Choice"
  | .advance => "Continue"

def Wait.read : Decoder Wait := Decode.choice false [("Choice", .choice), ("Continue", .advance)]

def FinishReason.name : FinishReason → String
  | .endOfScript => "EndOfScript"
  | .finishAction => "FinishAction"
  | .idleChatExhausted => "IdleChatExhausted"
  | .stopped => "Stopped"

def FinishReason.read : Decoder FinishReason :=
  Decode.choice false [("EndOfScript", .endOfScript), ("FinishAction", .finishAction),
    ("IdleChatExhausted", .idleChatExhausted), ("Stopped", .stopped)]

namespace Abort

def toJson : Abort → Json
  | .malformedAction position tag reason =>
    .obj [("MalformedAction",
      .obj [("position", .nat position), ("tag", .str tag), ("reason", .str reason)])]
  | .unresolvedLabel label position =>
    .obj [("UnresolvedLabel", .obj [("label", .str label), ("position", .nat position)])]
  | .stepLimit limit => .obj [("StepLimitExceeded", .obj [("limit", .nat limit)])]

def malformedFields : Fields [Nat, String, String] :=
  .cons (.required "position" Decode.position) <|
  .cons (.required "tag" Decode.text) <|
  .cons (.required "reason" Decode.text) .nil

def unresolvedFields : Fields [String, Nat] :=
  .cons (.required "label" Decode.text) <|
  .cons (.required "position" Decode.position) .nil

def limitFields : Fields [Nat] := .cons (.required "limit" Decode.position) .nil

def read : Decoder Abort := fun j => do
  let (name, data) ← Decode.variant j
  match name with
  | "MalformedAction" =>
    let (position, tag, reason, ()) ← malformedFields.ofData data
    return .malformedAction position tag reason
  | "UnresolvedLabel" =>
    let (label, position, ()) ← unresolvedFields.ofData data
    return .unresolvedLabel label position
  | "StepLimitExceeded" =>
    let (limit, ()) ← limitFields.ofData data
    return .stepLimit limit
  | name =>
    .error (.unknownVariant name ["MalformedAction", "UnresolvedLabel", "StepLimitExceeded"])

end Abort

namespace Status

def toJson : Status → Json
  | .idle => .str "Idle"
  | .running => .str "Running"
  | .awaiting wait => .obj [("AwaitingInput", .str wait.name)]
  | .finished reason => .obj [("Finished", .str reason.name)]
  | .aborted cause => .obj [("Aborted", cause.toJson)]

def read : Decoder Status := fun j => do
  let (name, data) ← Decode.variant j
  match name with
  | "Idle" => (Decode.noData false data).map fun () => .idle
  | "Running" => (Decode.noData false data).map fun () => .running
  | "AwaitingInput" => (Decode.data Wait.read data).map .awaiting
  | "Finished" => (Decode.data FinishReason.read data).map .finished
  | "Aborted" => (Decode.data Abort.read data).map .aborted
  | name =>
    .error (.unknownVariant name ["Idle", "Running", "AwaitingInput", "Finished", "Aborted"])

end Status

/-! ### State and identity -/

namespace State

def fields : Fields [Nat, Status, Scope, Scope, Screen, Bool, UInt64] :=
  .cons (.required "pc" Decode.position) <|
  .cons (.required "status" Status.read) <|
  .cons (.required "locals" Scope.read) <|
  .cons (.required "globals" Scope.read) <|
  .cons (.required "dialogue" Screen.read) <|
  .cons (.required "is_day" Decode.bool) <|
  .cons (.required "rng_seed" Decode.seed) .nil

def read : Decoder State := fun j =>
  (fields.read "struct State" j).map fun (pc, status, locals, globals, screen, isDay, seed, ()) =>
    { pc, status, locals, globals, screen, isDay, seed }

def toJson (s : State) : Json :=
  .obj [("pc", .nat s.pc), ("status", s.status.toJson), ("locals", s.locals.toJson),
    ("globals", s.globals.toJson), ("dialogue", s.screen.toJson), ("is_day", .bool s.isDay),
    ("rng_seed", .nat s.seed.toNat)]

end State

namespace Identity

def fields : Fields [String, String, String, Bool] :=
  .cons (.required "entity_type" Decode.text) <|
  .cons (.required "entity_name" Decode.text) <|
  .cons (.required "uid" Decode.text) <|
  .cons (.required "is_day" Decode.bool) .nil

def read : Decoder Identity := fun j =>
  (fields.read "struct SessionIdentity" j).map fun (type, name, uid, isDay, ()) =>
    { entity := ⟨type, name⟩, uid, isDay }

def toJson (i : Identity) : Json :=
  .obj [("entity_type", .str i.entity.type), ("entity_name", .str i.entity.name),
    ("uid", .str i.uid), ("is_day", .bool i.isDay)]

end Identity

/-! ### Inputs and effects -/

namespace Input

def chooseFields : Fields [String] := .cons (.required "label" Decode.text) .nil

def read : Decoder Input := fun j => do
  let (name, data) ← Decode.variant j
  match name with
  | "Choice" =>
    let (label, ()) ← chooseFields.ofData data
    return .choose label
  | "Continue" => (Decode.noData false data).map fun () => .advance
  | "Stop" => (Decode.noData false data).map fun () => .stop
  | name => .error (.unknownVariant name ["Choice", "Continue", "Stop"])

end Input

namespace Effect

def giveItemFields : Fields [String, Nat] :=
  .cons (.required "item" Decode.text) <|
  .cons (.required "amount" (Decode.natBelow (Nat.pow 2 32) "u32")) .nil

def commandFields : Fields [String] := .cons (.required "command" Decode.text) .nil

def checkpointFields : Fields [Option String] := .cons (.optional "label" Decode.text) .nil

def read : Decoder Effect := fun j => do
  let (name, data) ← Decode.variant j
  match name with
  | "GiveItem" =>
    let (item, amount, ()) ← giveItemFields.ofData data
    return .giveItem item amount
  | "Command" =>
    let (text, ()) ← commandFields.ofData data
    return .command text
  | "Checkpoint" =>
    let (label, ()) ← checkpointFields.ofData data
    return .checkpoint label
  | name => .error (.unknownVariant name ["GiveItem", "Command", "Checkpoint"])

def toJson : Effect → Json
  | .giveItem item amount =>
    .obj [("GiveItem", .obj [("item", .str item), ("amount", .nat amount)])]
  | .command text => .obj [("Command", .obj [("command", .str text)])]
  | .checkpoint label => .obj [("Checkpoint", .obj [("label", Json.ofOption .str label)])]

end Effect

end Parley
