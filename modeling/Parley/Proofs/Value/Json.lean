/-
  Parley.Proofs.Value.Json

  Script values read back off their JSON form. A whole number is written as an integer and
  comes back as the float of that integer, so `-0.0` comes back as `0.0`; every other value
  comes back as it was. What comes back is the plain form of the value (`Value.plain`): equal
  to it as values are compared, and written the same. No order of the entries matters to a scope
  (`Scope.read_reordered`).
-/
import Mathlib
import Parley.Proofs.Json.RoundTrip
import Parley.Proofs.Json.Order
import Parley.Proofs.Value.Whole

namespace Parley

namespace Value

/-! ### Numbers -/

/-- A number as it comes back from its JSON form. -/
def plainNumber (x : Float) : Float :=
  match whole? x with
  | some n => Float.ofInt n
  | none => x

theorem plainNumber_beq {x : Float} (h : x.isFinite = true) : (plainNumber x == x) = true := by
  unfold plainNumber
  split
  · rename_i n hn
    exact (of_whole? hn).2.2.2
  · exact beq_self_of_isFinite h

/-- Numbers that compare equal are the same whole number, the two zeros included. -/
theorem whole?_congr {x y : Float} (h : (x == y) = true) : whole? x = whole? y := by
  obtain ⟨-, -, rfl | ⟨rfl, rfl⟩ | ⟨rfl, rfl⟩⟩ := Float.beq_iff_ne_nan_and_eq.1 h
  · rfl
  · decide +kernel
  · decide +kernel

theorem whole?_plainNumber (x : Float) : whole? (plainNumber x) = whole? x := by
  unfold plainNumber
  split
  · rename_i n hn
    exact whole?_congr (of_whole? hn).2.2.2
  · rfl

theorem numberJson_plainNumber (x : Float) : numberJson (plainNumber x) = numberJson x := by
  rw [numberJson, whole?_plainNumber, numberJson]
  cases hx : whole? x with
  | some n => rfl
  | none => rw [plainNumber, hx]

/-- A whole number is written as an integer that reads back. -/
theorem readsBack_of_whole? {x : Float} {n : Int} (h : whole? x = some n) :
    (Json.Number.int n).ReadsBack := by
  obtain ⟨hlow, hhigh, -⟩ := of_whole? h
  have hbound : (Nat.pow 2 63 : Nat) < Nat.pow 2 64 := by decide
  exact Json.Number.readsBack_int hlow (by omega)

/-- What a number is written as: an integer in the range of 64-bit signed integers is written as
    such, and any other number as the float that it is. -/
structure WrittenAs (x : Float) (j : Option Json) : Prop where
  whole (n : Int) (hlow : -(Nat.pow 2 63 : Nat) ≤ n) (hhigh : n < (Nat.pow 2 63 : Nat))
    (hx : Binary64.toRat x = n) : j = some (.int n)
  other (hx : ¬ IsWhole x) : j = some (.float x)

theorem writtenAs_numberJson {x : Float} (h : x.isFinite = true) :
    WrittenAs x (some (numberJson x)) where
  whole n hlow hhigh hx := by
    have hwhole : whole? x = some n := (whole?_eq_some_iff h).2 ⟨hlow, hhigh, hx⟩
    rw [numberJson, hwhole]
  other hx := by
    have hnone : whole? x = none := (whole?_eq_none_iff h).2 hx
    rw [numberJson, hnone]

/-! ### Values -/

/-- The value as it comes back from its JSON form. -/
def plain : Value → Value
  | .number x => .number (plainNumber x)
  | v => v

/-- A number is finite, and if it is not whole, its text reads back. -/
def Legible : Value → Prop
  | .number x => x.isFinite = true ∧ (¬ IsWhole x → (Json.Number.float x).ReadsBack)
  | _ => True

instance : DecidablePred Legible
  | .number x =>
      decidable_of_iff (x.isFinite = true ∧ (whole? x = none → (Json.Number.float x).ReadsBack))
        (and_congr_right fun h => imp_congr_left (whole?_eq_none_iff h))
  | .null | .bool _ | .text _ | .list _ => isTrue trivial

/-- A number is finite. -/
def Finite : Value → Prop
  | .number x => x.isFinite = true
  | _ => True

instance : DecidablePred Finite
  | .number x => inferInstanceAs (Decidable (x.isFinite = true))
  | .null | .bool _ | .text _ | .list _ => isTrue trivial

theorem Legible.finite {v : Value} (h : v.Legible) : v.Finite := by
  cases v with
  | number x => exact h.1
  | null | bool _ | text _ | list _ => trivial

theorem textItems?_map (items : List String) : textItems? (items.map .str) = some items := by
  induction items with
  | nil => rfl
  | cons s items ih =>
      rw [List.map_cons, textItems?, ih]
      rfl

theorem read_toJson (v : Value) : read v.toJson = .ok v.plain := by
  cases v with
  | number x =>
      simp only [toJson, numberJson, plain, plainNumber]
      cases whole? x <;> rfl
  | list items =>
      have hitems : ofJson? (toJson (.list items)) = some (.list items) := by
        rw [toJson, Json.texts, ofJson?, textItems?_map]
        rfl
      rw [read, hitems]
      rfl
  | null | bool _ | text _ => rfl

theorem toJson_plain (v : Value) : v.plain.toJson = v.toJson := by
  cases v with
  | number x => exact numberJson_plainNumber x
  | null | bool _ | text _ | list _ => rfl

theorem plain_beq {v : Value} (h : v.Finite) : (v.plain == v) = true := by
  cases v with
  | number x => exact plainNumber_beq h
  | null => rfl
  | bool b => exact beq_self_eq_true b
  | text s => exact beq_self_eq_true s
  | list items => exact beq_self_eq_true items

theorem legible_toJson {v : Value} (h : v.Legible) : v.toJson.Legible := by
  cases v with
  | number x =>
      rw [toJson, numberJson]
      cases hx : whole? x with
      | some n => exact readsBack_of_whole? hx
      | none => exact h.2 ((whole?_eq_none_iff h.1).1 hx)
  | list items => exact Json.every_texts items
  | null | bool _ | text _ => trivial

/-- There are no objects in the tree of a value. -/
theorem toJson_reordered {f : Json → Json} (hf : Json.Reorders f) (v : Value) :
    f v.toJson = v.toJson := by
  cases v with
  | null => exact hf.null
  | bool b => exact hf.bool b
  | number x =>
      rw [toJson, numberJson]
      cases whole? x with
      | some n => exact hf.num (.int n)
      | none => exact hf.num (.float x)
  | text s => exact hf.str s
  | list items => exact hf.texts items

theorem read_reordered {f : Json → Json} (hf : Json.Reorders f) (v : Value) :
    read (f v.toJson) = .ok v.plain := by
  rw [toJson_reordered hf, read_toJson]

end Value

/-- A list is equal to its image if each of its elements is. -/
theorem map_beq_self {α : Type} [BEq α] {f : α → α} {l : List α}
    (h : ∀ a ∈ l, (f a == a) = true) : (l.map f == l) = true := by
  induction l with
  | nil => rfl
  | cons a l ih =>
      have ha := h a List.mem_cons_self
      have hl := ih fun b hb => h b (List.mem_cons_of_mem a hb)
      rw [List.map_cons, List.cons_beq_cons, ha, hl]
      rfl

/-! ### Scopes -/

namespace Scope

/-- The scope as it comes back from its JSON form. -/
def plain (s : Scope) : Scope := s.map Value.plain

/-- Every variable is legible. -/
def Legible (s : Scope) : Prop := ∀ e ∈ s.entries, e.2.Legible

instance (s : Scope) : Decidable s.Legible :=
  inferInstanceAs (Decidable (∀ e ∈ s.entries, e.2.Legible))

/-- Every variable is finite. -/
def Finite (s : Scope) : Prop := ∀ e ∈ s.entries, e.2.Finite

instance (s : Scope) : Decidable s.Finite :=
  inferInstanceAs (Decidable (∀ e ∈ s.entries, e.2.Finite))

theorem Legible.finite {s : Scope} (h : s.Legible) : s.Finite := fun e he => (h e he).finite

theorem Finite.get? {s : Scope} (h : s.Finite) {name : String} {v : Value}
    (hv : s.get? name = some v) : v.Finite :=
  h (name, v) (s.get?_eq_some_iff.1 hv)

theorem nodup_written (s : Scope) :
    ((s.entries.map fun e => (e.1, e.2.toJson)).map (·.1)).Nodup := by
  rw [List.map_map]
  exact s.nodup_names

theorem read_reordered {f : Json → Json} (hf : Json.Reorders f) (s : Scope) :
    read (f s.toJson) = .ok s.plain := by
  obtain ⟨es', hobj, hperm⟩ := hf.obj s.nodup_written
  have hsame : Json.mapEntries f (s.entries.map fun e => (e.1, e.2.toJson)) =
      s.entries.map fun e => (e.1, e.2.toJson) := by
    rw [Json.mapEntries, List.map_map]
    exact List.map_congr_left fun e _ => by
      show (e.1, f e.2.toJson) = _
      rw [Value.toJson_reordered hf]
  have hentries : Decode.entries Value.read (s.entries.map fun e => (e.1, e.2.toJson)) =
      .ok s.plain.entries := Decode.entries_map fun e _ => Value.read_toJson e.2
  rw [hsame] at hperm
  -- The reordered entries read as the same variables in another order, so as the same scope.
  obtain ⟨l, hread, hl⟩ := Decode.entries_perm hperm hentries
  show Decode.table Value.read (f (.obj (s.entries.map fun e => (e.1, e.2.toJson)))) = _
  rw [hobj, Decode.table, hread, Except.map, ← Table.ofList_perm hl s.plain.nodup_names,
    Table.ofList_entries]

/-- Every number of a scope stands in its tree under the same name. -/
theorem written_reordered {f : Json → Json} (hf : Json.Reorders f) {s : Scope} (hs : s.Finite)
    {name : String} {x : Float} (h : s.get? name = some (.number x)) :
    Value.WrittenAs x ((f s.toJson).get? name) := by
  have hfind : Table.find name s.entries = some (.number x) := h
  have hfinite : x.isFinite = true := hs.get? h
  have hsame : f (Value.numberJson x) = Value.numberJson x :=
    Value.toJson_reordered hf (.number x)
  rw [toJson, Json.ofTable, hf.get?_obj s.nodup_written, Table.find_map, hfind]
  show Value.WrittenAs x (some (f (Value.numberJson x)))
  rw [hsame]
  exact Value.writtenAs_numberJson hfinite

theorem read_toJson (s : Scope) : read s.toJson = .ok s.plain :=
  read_reordered Json.reorders_id s

theorem toJson_plain (s : Scope) : s.plain.toJson = s.toJson := by
  simp only [toJson, Json.ofTable, plain, Table.map, List.map_map, Function.comp_def,
    Value.toJson_plain]

theorem plain_beq {s : Scope} (h : s.Finite) : (s.plain == s) = true := by
  show (s.entries.map (fun e => (e.1, e.2.plain)) == s.entries) = true
  refine map_beq_self fun e he => ?_
  show (e.1 == e.1 && e.2.plain == e.2) = true
  rw [beq_self_eq_true, Value.plain_beq (h e he)]
  rfl

theorem legible_toJson {s : Scope} (h : s.Legible) : s.toJson.Legible := by
  refine Json.everyEntry_iff.2 fun e he => ?_
  obtain ⟨e, hmem, rfl⟩ := List.mem_map.1 he
  exact Value.legible_toJson (h e hmem)

end Scope

end Parley
