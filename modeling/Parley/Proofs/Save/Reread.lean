/-
  Parley.Proofs.Save.Reread

  What saved progress comes back as, whatever numbers the texts of its numbers are read as. A
  finite number has a text that stands for a number, though not always for the same one, so it is
  never written as `null`. The text of a record with finite numbers reads back, and what comes back
  differs from the record at most in the numbers themselves (`Record.decode?_reread`): every
  variable keeps its name and its kind (`Scope.get?_reread`).
-/
import Parley.Proofs.Json.Literal
import Parley.Proofs.Save.Text

namespace Parley

/-! ### Numbers -/

namespace Json

/-- The float that a number of a tree is read as. -/
def Number.toFloat : Number → Float
  | .int n => Float.ofInt n
  | .float x => x

end Json

namespace Value

/-- The number of the tree that a number is written as. -/
def written (x : Float) : Json.Number :=
  match whole? x with
  | some n => .int n
  | none => .float x

theorem numberJson_eq (x : Float) : numberJson x = .num (written x) := by
  unfold numberJson written
  cases whole? x <;> rfl

theorem isLiteral_written {x : Float} (h : x.isFinite = true) : (written x).IsLiteral := by
  unfold written
  split
  · rename_i n hn
    exact (readsBack_of_whole? hn).isLiteral
  · exact Json.Number.isLiteral_float h

/-! ### Values -/

/-- The value as it comes back from its text. -/
def reread : Value → Value
  | .number x => .number (written x).reread.toFloat
  | v => v

theorem kind_reread (v : Value) : v.reread.kind = v.kind := by
  cases v <;> rfl

theorem every_toJson {v : Value} (h : v.Finite) : v.toJson.Every Json.Number.IsLiteral := by
  cases v with
  | number x =>
      rw [toJson, numberJson_eq]
      exact isLiteral_written h
  | list items => exact Json.every_texts items
  | null | bool _ | text _ => trivial

theorem read_reread (v : Value) : read v.toJson.reread = .ok v.reread := by
  cases v with
  | number x =>
      rw [toJson, numberJson_eq, Json.reread, reread]
      cases (written x).reread <;> rfl
  | list items =>
      obtain ⟨-, hsame⟩ := Json.legible_reread _ (Json.every_texts items)
      rw [toJson, hsame]
      exact read_toJson (.list items)
  | null | bool _ | text _ => rfl

end Value

/-! ### Scopes -/

namespace Scope

/-- The scope as it comes back from its text. -/
def reread (s : Scope) : Scope := s.map Value.reread

theorem names_reread (s : Scope) : s.reread.names = s.names := by
  simp [reread, Table.names, Table.map]

theorem get?_reread (s : Scope) (name : String) :
    s.reread.get? name = (s.get? name).map Value.reread :=
  Table.get?_map Value.reread s name

theorem every_toJson {s : Scope} (h : s.Finite) : s.toJson.Every Json.Number.IsLiteral := by
  refine Json.everyEntry_iff.2 fun e he => ?_
  obtain ⟨e, hmem, rfl⟩ := List.mem_map.1 he
  exact Value.every_toJson (h e hmem)

theorem read_reread (s : Scope) : read s.toJson.reread = .ok s.reread := by
  have hentries : Decode.entries Value.read
      (s.entries.map fun e => (e.1, e.2.toJson.reread)) = .ok s.reread.entries :=
    @Decode.entries_map _ _ Value.read (fun v => v.toJson.reread) Value.reread s.entries
      fun e _ => Value.read_reread e.2
  rw [toJson, Json.ofTable, Json.reread, Json.rereadEntries_eq, List.map_map]
  show Decode.table Value.read (.obj (s.entries.map fun e => (e.1, e.2.toJson.reread))) = _
  rw [Decode.table, hentries, Except.map, Table.ofList_entries]

/-- A number stands in the tree under its name as the number that it is written as. -/
theorem get?_toJson {s : Scope} {name : String} {x : Float}
    (h : s.get? name = some (.number x)) :
    s.toJson.get? name = some (.num (Value.written x)) := by
  have hfind : Table.find name s.entries = some (.number x) := h
  rw [toJson, Json.ofTable, Json.get?, Table.find_map, hfind, ← Value.numberJson_eq]
  rfl

end Scope

/-! ### Records -/

namespace Record

/-- What stands in the tree of a record for a variable. -/
def writtenFor? (r : Record) (name : String) : Option Json :=
  (r.toJson.get? "global").bind fun global =>
    (global.get? "variables").bind fun scope => scope.get? name

/-- A finite number stands there as a number. -/
theorem writtenFor?_number {r : Record} (hscope : r.global.scope.Finite) {name : String} {x : Float}
    (h : r.global.scope.get? name = some (.number x)) :
    ∃ n, r.writtenFor? name = some (.num n) ∧ n.text ≠ "null" := by
  have hfinite : x.isFinite = true := hscope.get? h
  exact ⟨Value.written x, Scope.get?_toJson h, (Value.isLiteral_written hfinite).text_ne_null⟩

/-- The record as it comes back from its text. -/
def reread (r : Record) : Record := { r with global.scope := r.global.scope.reread }

theorem every_toJson {r : Record} (hcounter : r.own.counter < Nat.pow 2 64)
    (hscope : r.global.scope.Finite) : r.toJson.Every Json.Number.IsLiteral := by
  obtain ⟨hown, -⟩ := Json.legible_reread _ (LocalRecord.legible_toJson hcounter)
  exact ⟨⟨trivial, trivial, Scope.every_toJson hscope, trivial⟩, hown, trivial⟩

theorem read_reread {r : Record} (hcounter : r.own.counter < Nat.pow 2 64) :
    read r.toJson.reread = .ok r.reread := by
  obtain ⟨-, hown⟩ := Json.legible_reread _ (LocalRecord.legible_toJson hcounter)
  have hglobal : GlobalRecord.fields.Writes
      [("entity_type", .str r.global.entity.type), ("entity_name", .str r.global.entity.name),
        ("variables", r.global.scope.toJson.reread)]
      (r.global.entity.type, r.global.entity.name, r.global.scope.reread, ()) := by
    refine .required rfl (by simp) ?_
    refine .required rfl (by simp) ?_
    exact .withDefault (Scope.read_reread r.global.scope) (by simp) .nil
  have hread : GlobalRecord.read r.global.toJson.reread = .ok r.reread.global := by
    show GlobalRecord.read (.obj [("entity_type", .str r.global.entity.type),
      ("entity_name", .str r.global.entity.name),
      ("variables", r.global.scope.toJson.reread)]) = _
    rw [GlobalRecord.read, Fields.read_obj hglobal]
    rfl
  -- There are no floats in the own part, so it comes back as it was.
  have hwrites : fields.Writes
      [("global", r.global.toJson.reread), ("local", r.own.toJson.reread)]
      (r.reread.global, r.own, ()) := by
    refine .required hread (by simp) ?_
    rw [hown]
    exact .required (LocalRecord.read_toJson hcounter) (by simp) .nil
  show read (.obj [("global", r.global.toJson.reread), ("local", r.own.toJson.reread)]) = _
  rw [read, Fields.read_obj hwrites]
  rfl

/-- The text of a record with finite numbers reads back, with every number as its text is
    read. -/
theorem decode?_reread {r : Record} (hcounter : r.own.counter < Nat.pow 2 64)
    (hscope : r.global.scope.Finite) : decode? r.encode = some r.reread := by
  rw [decode?, encode, Json.parse?_pretty_reread (every_toJson hcounter hscope)]
  simp only [Option.bind_eq_bind, Option.bind_some, read_reread hcounter]
  rfl

end Record

end Parley
