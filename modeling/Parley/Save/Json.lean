/-
  Parley.Save.Json

  The text of saved progress: records and books as indented JSON.
-/
import Parley.Save.Book
import Parley.State.Json
import Parley.Json.Reader

namespace Parley

namespace GlobalRecord

def fields : Fields [String, String, Scope] :=
  .cons (.required "entity_type" Decode.text) <|
  .cons (.required "entity_name" Decode.text) <|
  .cons (.withDefault "variables" Scope.read .empty) .nil

def read : Decoder GlobalRecord := fun j =>
  (fields.read "struct GlobalRecord" j).map fun (type, name, scope, ()) =>
    ⟨⟨type, name⟩, scope⟩

def toJson (r : GlobalRecord) : Json :=
  .obj [("entity_type", .str r.entity.type), ("entity_name", .str r.entity.name),
    ("variables", r.scope.toJson)]

end GlobalRecord

namespace LocalRecord

def fields : Fields [String, String, String, Nat, Option String] :=
  .cons (.required "entity_type" Decode.text) <|
  .cons (.required "entity_name" Decode.text) <|
  .cons (.required "uid" Decode.text) <|
  .cons (.withDefault "counter" Decode.position 0) <|
  .cons (.withDefault "checkpoint" (Decode.option Decode.text) none) .nil

def read : Decoder LocalRecord := fun j =>
  (fields.read "struct LocalRecord" j).map fun (type, name, uid, counter, checkpoint, ()) =>
    ⟨⟨type, name⟩, uid, counter, checkpoint⟩

def toJson (r : LocalRecord) : Json :=
  .obj [("entity_type", .str r.entity.type), ("entity_name", .str r.entity.name),
    ("uid", .str r.uid), ("counter", .nat r.counter),
    ("checkpoint", Json.ofOption .str r.checkpoint)]

end LocalRecord

namespace Record

def fields : Fields [GlobalRecord, LocalRecord] :=
  .cons (.required "global" GlobalRecord.read) <|
  .cons (.required "local" LocalRecord.read) .nil

def read : Decoder Record := fun j =>
  (fields.read "struct PersistedRecord" j).map fun (global, own, ()) => ⟨global, own⟩

def toJson (r : Record) : Json :=
  .obj [("global", r.global.toJson), ("local", r.own.toJson)]

/-- The text of a record. -/
def encode (r : Record) : String := r.toJson.pretty

/-- Reads a record off its text. -/
def decode? (text : String) : Option Record := do
  let j ← Json.parse? text
  (read j).toOption

end Record

namespace Book

def fields : Fields [List GlobalRecord, List LocalRecord] :=
  .cons (.withDefault "globals" (Decode.list GlobalRecord.read) []) <|
  .cons (.withDefault "locals" (Decode.list LocalRecord.read) []) .nil

def read : Decoder Book := fun j =>
  (fields.read "struct SaveBook" j).map fun (globals, locals, ()) => ⟨globals, locals⟩

def toJson (b : Book) : Json :=
  .obj [("globals", .arr (b.globals.map GlobalRecord.toJson)),
    ("locals", .arr (b.locals.map LocalRecord.toJson))]

def encode (b : Book) : String := b.toJson.pretty

def decode? (text : String) : Option Book := do
  let j ← Json.parse? text
  (read j).toOption

end Book

end Parley
