/-
  Parley.Proofs.Save.Text

  Saved progress reads back from its text. Decoding the text of a record succeeds and gives an
  equal record with the same text (`Record.decode_encode`). What comes back is the plain form of
  the record, in which every whole number is the float of an integer; of a book the same is shown
  (`Book.decode?_of_legible`).

  Whole numbers and counters read back by proof. Of the other numbers it is assumed, one by one,
  that their shortest text reads back (`Value.Legible`).
-/
import Parley.Save.Json
import Parley.Proofs.Save.Store
import Parley.Proofs.Value.Json

namespace Parley

deriving instance ReflBEq, LawfulBEq for LocalRecord

/-! ### Parts -/

namespace GlobalRecord

/-- The record as it comes back from its text. -/
def plain (r : GlobalRecord) : GlobalRecord := { r with scope := r.scope.plain }

theorem read_toJson (r : GlobalRecord) : read r.toJson = .ok r.plain := by
  have hwrites : fields.Writes
      [("entity_type", .str r.entity.type), ("entity_name", .str r.entity.name),
        ("variables", r.scope.toJson)] (r.entity.type, r.entity.name, r.scope.plain, ()) := by
    refine .required rfl (by simp) ?_
    refine .required rfl (by simp) ?_
    exact .withDefault (Scope.read_toJson r.scope) (by simp) .nil
  rw [read, toJson, Fields.read_obj hwrites]
  rfl

theorem toJson_plain (r : GlobalRecord) : r.plain.toJson = r.toJson := by
  rw [toJson, toJson, plain, Scope.toJson_plain]

theorem plain_beq {r : GlobalRecord} (h : r.scope.Legible) : (r.plain == r) = true := by
  show (r.entity == r.entity && r.scope.plain == r.scope) = true
  rw [beq_self_eq_true, Scope.plain_beq h.finite]
  rfl

theorem legible_toJson {r : GlobalRecord} (h : r.scope.Legible) : r.toJson.Legible :=
  ⟨trivial, trivial, Scope.legible_toJson h, trivial⟩

end GlobalRecord

namespace LocalRecord

theorem read_toJson {r : LocalRecord} (h : r.counter < Nat.pow 2 64) : read r.toJson = .ok r := by
  have hwrites : fields.Writes
      [("entity_type", .str r.entity.type), ("entity_name", .str r.entity.name),
        ("uid", .str r.uid), ("counter", .nat r.counter),
        ("checkpoint", Json.ofOption .str r.checkpoint)]
      (r.entity.type, r.entity.name, r.uid, r.counter, r.checkpoint, ()) := by
    refine .required rfl (by simp) ?_
    refine .required rfl (by simp) ?_
    refine .required rfl (by simp) ?_
    refine .withDefault (Decode.position_nat h) (by simp) ?_
    exact .withDefault (Decode.option_text r.checkpoint) (by simp) .nil
  rw [read, toJson, Fields.read_obj hwrites]
  rfl

theorem legible_toJson {r : LocalRecord} (h : r.counter < Nat.pow 2 64) : r.toJson.Legible := by
  refine ⟨trivial, trivial, trivial, Json.Number.readsBack_nat h, ?_, trivial⟩
  cases r.checkpoint <;> trivial

end LocalRecord

/-! ### Records -/

namespace Record

/-- The record as it comes back from its text. -/
def plain (r : Record) : Record := { r with global := r.global.plain }

/-- The counter fits 64 bits, and every variable is legible. -/
structure Legible (r : Record) : Prop where
  counter : r.own.counter < Nat.pow 2 64
  scope : r.global.scope.Legible

theorem legible_iff {r : Record} :
    r.Legible ↔ r.own.counter < Nat.pow 2 64 ∧ r.global.scope.Legible :=
  ⟨fun h => ⟨h.counter, h.scope⟩, fun h => ⟨h.1, h.2⟩⟩

instance (r : Record) : Decidable r.Legible := decidable_of_iff _ legible_iff.symm

theorem read_toJson {r : Record} (h : r.Legible) : read r.toJson = .ok r.plain := by
  have hwrites : fields.Writes [("global", r.global.toJson), ("local", r.own.toJson)]
      (r.global.plain, r.own, ()) := by
    refine .required (GlobalRecord.read_toJson r.global) (by simp) ?_
    exact .required (LocalRecord.read_toJson h.counter) (by simp) .nil
  rw [read, toJson, Fields.read_obj hwrites]
  rfl

theorem toJson_plain (r : Record) : r.plain.toJson = r.toJson := by
  rw [toJson, toJson, plain, GlobalRecord.toJson_plain]

theorem plain_beq {r : Record} (h : r.Legible) : (r.plain == r) = true := by
  show (r.global.plain == r.global && r.own == r.own) = true
  rw [GlobalRecord.plain_beq h.scope, beq_self_eq_true]
  rfl

theorem legible_toJson {r : Record} (h : r.Legible) : r.toJson.Legible :=
  ⟨GlobalRecord.legible_toJson h.scope, LocalRecord.legible_toJson h.counter, trivial⟩

theorem decode?_of_legible {r : Record} (h : r.Legible) : decode? r.encode = some r.plain := by
  rw [decode?, encode, Json.parse?_pretty (legible_toJson h)]
  simp only [Option.bind_eq_bind, Option.bind_some, read_toJson h]
  rfl

/-- The text of a record reads back as an equal record with the same text, whatever texts stand
    in it. -/
theorem decode_encode {r : Record} (hcounter : r.own.counter < Nat.pow 2 64)
    (hscope : r.global.scope.Legible) :
    ∃ back, decode? r.encode = some back ∧ (back == r) = true ∧ back.encode = r.encode := by
  have hlegible : r.Legible := ⟨hcounter, hscope⟩
  refine ⟨r.plain, decode?_of_legible hlegible, plain_beq hlegible, ?_⟩
  rw [encode, toJson_plain, encode]

/-- A record with quotes, backslashes, controls and characters of every width in its texts, with
    the greatest counter, a negative zero, and numbers that are not whole or not in the range of
    integers. -/
theorem decode_encode_odd_record :
    let entity : Entity := ⟨"a\"b\\", "\u0000\u001f\u007f\n"⟩
    let scope : Scope := .ofList [("", .null), ("zero", .number (-0.0)), ("é\t", .number 0.1),
      ("2^63", .number 9223372036854775808), ("界", .list ["\"", "", "\\u00e9"]), ("𝄞", .text "/")]
    let r : Record := ⟨⟨entity, scope⟩, ⟨entity, "\r\u0008\u000c", 18446744073709551615, some "“"⟩⟩
    r.global.scope.Legible ∧
      ∃ back, decode? r.encode = some back ∧ (back == r) = true ∧ back.encode = r.encode := by
  intro entity scope r
  have hscope : r.global.scope.Legible := by decide +kernel
  exact ⟨hscope, decode_encode (by decide) hscope⟩

end Record

/-! ### Books -/

namespace Book

/-- The book as it comes back from its text. -/
def plain (b : Book) : Book := { b with globals := b.globals.map .plain }

/-- Every counter fits 64 bits, and every variable is legible. -/
structure Legible (b : Book) : Prop where
  globals : ∀ g ∈ b.globals, g.scope.Legible
  locals : ∀ l ∈ b.locals, l.counter < Nat.pow 2 64

theorem read_toJson {b : Book} (h : b.Legible) : read b.toJson = .ok b.plain := by
  have hglobals : Decode.list GlobalRecord.read (.arr (b.globals.map GlobalRecord.toJson)) =
      .ok b.plain.globals := Decode.items_map fun g _ => GlobalRecord.read_toJson g
  have hlocals : Decode.list LocalRecord.read (.arr (b.locals.map LocalRecord.toJson)) =
      .ok b.locals := by
    have hitems : Decode.items LocalRecord.read (b.locals.map LocalRecord.toJson) =
        .ok (b.locals.map id) :=
      Decode.items_map fun l hl => LocalRecord.read_toJson (h.locals l hl)
    rwa [List.map_id] at hitems
  have hwrites : fields.Writes [("globals", .arr (b.globals.map GlobalRecord.toJson)),
      ("locals", .arr (b.locals.map LocalRecord.toJson))] (b.plain.globals, b.locals, ()) := by
    refine .withDefault hglobals (by simp) ?_
    exact .withDefault hlocals (by simp) .nil
  rw [read, toJson, Fields.read_obj hwrites]
  rfl

theorem toJson_plain (b : Book) : b.plain.toJson = b.toJson := by
  simp only [toJson, plain, List.map_map, Function.comp_def, GlobalRecord.toJson_plain]

theorem plain_beq {b : Book} (h : b.Legible) : (b.plain == b) = true := by
  show (b.globals.map .plain == b.globals && b.locals == b.locals) = true
  rw [map_beq_self fun g hg => GlobalRecord.plain_beq (h.globals g hg), beq_self_eq_true]
  rfl

theorem legible_toJson {b : Book} (h : b.Legible) : b.toJson.Legible := by
  refine ⟨Json.everyItem_iff.2 fun j hj => ?_, Json.everyItem_iff.2 fun j hj => ?_, trivial⟩
  · obtain ⟨g, hg, rfl⟩ := List.mem_map.1 hj
    exact GlobalRecord.legible_toJson (h.globals g hg)
  · obtain ⟨l, hl, rfl⟩ := List.mem_map.1 hj
    exact LocalRecord.legible_toJson (h.locals l hl)

theorem decode?_of_legible {b : Book} (h : b.Legible) : decode? b.encode = some b.plain := by
  rw [decode?, encode, Json.parse?_pretty (legible_toJson h)]
  simp only [Option.bind_eq_bind, Option.bind_some, read_toJson h]
  rfl

end Book

end Parley
