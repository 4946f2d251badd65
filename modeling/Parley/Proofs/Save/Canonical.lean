/-
  Parley.Proofs.Save.Canonical

  The text of a scope says what the scope is, and nothing about how it came to be that way. The
  entries of a table are its look-ups in the order of the names, so scopes that agree on every
  variable have the same tree (`toJson_eq_of_agrees`). A value can be told from its tree as far as
  values can be told apart (`Value.beq_iff_toJson_eq`), and a tree from its text, so of finite
  scopes only those that agree are written alike.

  Values are compared by `==`: the two zeros are one number, and both are written `0`.
-/
import Parley.Proofs.Condition.Laws
import Parley.Proofs.Json.Unambiguous
import Parley.Proofs.Save.Reread
import Parley.Proofs.Scope.Changes
import Parley.Proofs.Text.Order
import Parley.Save.Progress

namespace Parley

/-! ### Texts of objects -/

namespace Json

/-- Behind a first member, the others follow with a comma in front of each. -/
theorem intercalate_members {member : String × Json → String}
    {others : List (String × Json) → String} (hnil : others [] = "")
    (hcons : ∀ e es, others (e :: es) = "," ++ member e ++ others es) (first : String)
    (es : List (String × Json)) :
    ",".intercalate (first :: es.map member) = first ++ others es := by
  induction es generalizing first with
  | nil => rw [List.map_nil, String.intercalate_singleton, hnil, String.append_empty]
  | cons e es ih =>
      rw [List.map_cons, String.intercalate_cons_cons, ih, hcons]
      simp only [String.append_assoc]

/-- An object on one line is its members with commas between them. -/
theorem compact_obj (es : List (String × Json)) :
    (obj es).compact =
      "\x7b" ++ ",".intercalate (es.map fun e => stringText e.1 ++ ":" ++ e.2.compact) ++
        "\x7d" := by
  cases es with
  | nil => rfl
  | cons e es =>
      have hcons (e : String × Json) (es : List (String × Json)) :
          compactEntries (e :: es) =
            "," ++ (stringText e.1 ++ ":" ++ e.2.compact) ++ compactEntries es := by
        simp only [compactEntries, String.append_assoc]
      rw [List.map_cons, intercalate_members rfl hcons]
      simp only [compact, String.append_assoc]

/-- An indented object is its members, each on a line of its own, with commas between them. -/
theorem prettyAt_obj (level : Nat) (es : List (String × Json)) :
    prettyAt level (.obj es) =
      "\x7b" ++ ",".intercalate (es.map fun e =>
          newline (level + 1) ++ stringText e.1 ++ ": " ++ prettyAt (level + 1) e.2) ++
        (if es.isEmpty then "" else newline level) ++ "\x7d" := by
  cases es with
  | nil =>
      rw [prettyAt]
      rfl
  | cons e es =>
      have hcons (e : String × Json) (es : List (String × Json)) :
          prettyEntries (level + 1) (e :: es) =
            "," ++ (newline (level + 1) ++ stringText e.1 ++ ": " ++ prettyAt (level + 1) e.2) ++
              prettyEntries (level + 1) es := by
        simp only [prettyEntries, String.append_assoc]
      rw [List.map_cons, intercalate_members rfl hcons]
      simp only [prettyAt, String.append_assoc, List.isEmpty_cons]
      rfl

end Json

/-! ### Values -/

namespace Value

variable {u v w : Value}

/-- Values that equal a third one equal each other. -/
theorem beq_of_beq (hv : (u == v) = true) (hw : (u == w) = true) : (v == w) = true := by
  rw [beq_iff] at hv hw ⊢
  rcases hv with ⟨rfl, rfl⟩ | hv
  · rcases hw with ⟨-, rfl⟩ | hw
    · exact .inl ⟨rfl, rfl⟩
    · cases hw
  · rcases hw with ⟨rfl, -⟩ | hw
    · cases hv
    · exact .inr (hv.symm.trans hw)

/-- Equal floats are written alike: they are the same float, or zeros and so written `0`. -/
theorem numberJson_congr {x y : Float} (h : (x == y) = true) : numberJson x = numberJson y := by
  have hzero : whole? 0 = some 0 ∧ whole? (-0) = some 0 := by decide +kernel
  obtain ⟨-, -, rfl | ⟨rfl, rfl⟩ | ⟨rfl, rfl⟩⟩ := Float.beq_iff_ne_nan_and_eq.1 h
  · rfl
  · rw [numberJson, numberJson, hzero.1, hzero.2]
  · rw [numberJson, numberJson, hzero.1, hzero.2]

theorem toJson_congr (h : (v == w) = true) : v.toJson = w.toJson := by
  rcases beq_iff.1 h with ⟨rfl, rfl⟩ | hsame
  · rfl
  · cases hsame with
    | number hxy => exact numberJson_congr hxy
    | bool | text | list => rfl

theorem map_toJson_congr {o p : Option Value} (h : (o == p) = true) :
    o.map toJson = p.map toJson := by
  cases o with
  | none =>
      cases p with
      | none => rfl
      | some w => cases h
  | some v =>
      cases p with
      | none => cases h
      | some w => exact congrArg some (toJson_congr h)

/-- Values are told apart by their trees: what a tree reads as equals the value it was made of. -/
theorem beq_iff_toJson_eq (hv : v.Finite) (hw : w.Finite) :
    (v == w) = true ↔ v.toJson = w.toJson := by
  refine ⟨toJson_congr, fun h => ?_⟩
  -- The one tree reads as the plain form of either value, and each value equals its plain form.
  have hplain : v.plain = w.plain := by
    have hread := read_toJson v
    rw [h, read_toJson w] at hread
    exact (Except.ok.inj hread).symm
  have hsame : (v.plain == w) = true := by
    rw [hplain]
    exact plain_beq hw
  exact beq_of_beq (plain_beq hv) hsame

end Value

/-! ### Scopes -/

namespace Scope

/-- Whether every variable has the same value in both scopes, if it has one in either. Numbers are
    compared as floats. -/
def Agrees (s t : Scope) : Prop := ∀ name, (s.get? name == t.get? name) = true

variable {s t : Scope}

theorem agrees_iff : s.Agrees t ↔ ∀ name ∈ s.names ++ t.names,
    (s.get? name == t.get? name) = true := by
  refine ⟨fun h name _ => h name, fun h name => ?_⟩
  by_cases hmem : name ∈ s.names ++ t.names
  · exact h name hmem
  · -- A name that stands in neither scope is absent from both.
    obtain ⟨hs, ht⟩ := not_or.1 (mt List.mem_append.2 hmem)
    rw [Table.mem_names_iff, Option.not_isSome_iff_eq_none] at hs ht
    rw [hs, ht]
    rfl

instance (s t : Scope) : Decidable (s.Agrees t) := decidable_of_iff _ agrees_iff.symm

/-- Scopes have one tree just if what a name is looked up as has one tree in both. -/
theorem toJson_eq_iff : s.toJson = t.toJson ↔
    ∀ name, (s.get? name).map Value.toJson = (t.get? name).map Value.toJson := by
  have htree (s : Scope) : s.toJson = .obj (s.map Value.toJson).entries := rfl
  rw [htree, htree]
  constructor
  · intro h name
    rw [← Table.get?_map, ← Table.get?_map, Table.entries_inj (Json.obj.inj h)]
  · intro h
    have hsame : s.map Value.toJson = t.map Value.toJson :=
      Table.eq_of_get? fun name => by rw [Table.get?_map, Table.get?_map, h name]
    rw [hsame]

theorem toJson_eq_of_agrees (h : s.Agrees t) : s.toJson = t.toJson :=
  toJson_eq_iff.2 fun name => Value.map_toJson_congr (h name)

theorem agrees_of_toJson_eq (hs : s.Finite) (ht : t.Finite) (h : s.toJson = t.toJson) :
    s.Agrees t := by
  intro name
  have hname := toJson_eq_iff.1 h name
  cases hv : s.get? name with
  | none =>
      rw [hv, Option.map_none, eq_comm, Option.map_eq_none_iff] at hname
      rw [hname]
      rfl
  | some v =>
      rw [hv, Option.map_some, eq_comm, Option.map_eq_some_iff] at hname
      obtain ⟨w, hw, htree⟩ := hname
      rw [hw]
      exact (Value.beq_iff_toJson_eq (hs.get? hv) (ht.get? hw)).2 htree.symm

/-- How a scope stands in its text, on one line and indented: the variables in the order of the
    bytes of their names, each one once. -/
structure InOrder (s : Scope) : Prop where
  ascending : (s.entries.map fun e => utf8Bytes e.1).Pairwise (· < ·)
  lists (name : String) (v : Value) : (name, v) ∈ s.entries ↔ s.get? name = some v
  compact : s.toJson.compact =
    "\x7b" ++
      ",".intercalate (s.entries.map fun e => Json.stringText e.1 ++ ":" ++ e.2.toJson.compact) ++
      "\x7d"
  pretty (level : Nat) : Json.prettyAt level s.toJson =
    "\x7b" ++
      ",".intercalate (s.entries.map fun e =>
        Json.newline (level + 1) ++ Json.stringText e.1 ++ ": " ++
          Json.prettyAt (level + 1) e.2.toJson) ++
      (if s.isEmpty then "" else Json.newline level) ++ "\x7d"

theorem inOrder (s : Scope) : s.InOrder where
  ascending := List.pairwise_map.2 (s.ordered.imp utf8Bytes_lt)
  lists name v := s.get?_eq_some_iff.symm
  compact := by
    rw [toJson, Json.ofTable, Json.compact_obj, List.map_map]
    rfl
  pretty level := by
    rw [toJson, Json.ofTable, Json.prettyAt_obj, List.map_map, List.isEmpty_map]
    rfl

end Scope

/-! ### Records -/

namespace Record

/-- The text of the scope stands in that of the record, and what surrounds it does not depend on
    the scope. -/
theorem exists_encode_eq (r : Record) : ∃ before after, ∀ scope : Scope,
    Record.encode { r with global.scope := scope } =
      before ++ Json.prettyAt 2 scope.toJson ++ after := by
  refine ⟨"\x7b" ++ Json.newline 1 ++ Json.stringText "global" ++ ": " ++
      ("\x7b" ++ Json.newline 2 ++ Json.stringText "entity_type" ++ ": " ++
        Json.stringText r.global.entity.type ++
        "," ++ Json.newline 2 ++ Json.stringText "entity_name" ++ ": " ++
        Json.stringText r.global.entity.name ++
        "," ++ Json.newline 2 ++ Json.stringText "variables" ++ ": "),
    Json.newline 1 ++ "\x7d" ++ Json.prettyEntries 1 [("local", r.own.toJson)] ++
      Json.newline 0 ++ "\x7d", fun scope => ?_⟩
  simp only [encode, Json.pretty, toJson, GlobalRecord.toJson, Json.prettyAt, Json.prettyEntries,
    Json.scalarText, String.append_assoc, String.empty_append]

/-- Records with finite scopes that are written alike have the same global part. -/
theorem global_of_encode {r r' : Record} (hr : r.global.scope.Finite)
    (hr' : r'.global.scope.Finite) (h : r.encode = r'.encode) :
    r.global.toJson = r'.global.toJson := by
  have hliteral {g : GlobalRecord} (hg : g.scope.Finite) :
      g.toJson.Every Json.Number.IsLiteral :=
    ⟨trivial, trivial, Scope.every_toJson hg, trivial⟩
  have hlaid : Json.laid .indented 0 r.toJson [] = Json.laid .indented 0 r'.toJson [] := by
    rw [encode, encode, Json.pretty, Json.pretty] at h
    rw [← Json.prettyAt_append, ← Json.prettyAt_append, h]
  rw [toJson, toJson] at hlaid
  exact (Json.laid_first_inj .indented 0 (hliteral hr) (hliteral hr') hlaid).2

theorem scope_of_encode {r r' : Record} (hr : r.global.scope.Finite)
    (hr' : r'.global.scope.Finite) (h : r.encode = r'.encode) :
    r.global.scope.Agrees r'.global.scope := by
  have hglobal := global_of_encode hr hr' h
  simp only [GlobalRecord.toJson, Json.obj.injEq, List.cons.injEq, Prod.mk.injEq, true_and,
    and_true] at hglobal
  exact Scope.agrees_of_toJson_eq hr hr' hglobal.2.2

end Record

/-! ### Scopes that were built up -/

namespace Scope

/-- The bytes of the record of a state, with the scope as its global variables. -/
def recordBytes (s : Scope) (st : State) (i : Identity) (checkpointVar : String) : List UInt8 :=
  utf8Bytes ({ st with globals := s }.save i checkpointVar).encode

/-- Saved bytes are canonical. Let two scopes be built up from nothing by setting, modifying and
    creating variables. If they agree on every variable, they have the same bytes, and so have the
    records that they are saved in. The variables stand in ascending order of the bytes of their
    names, each one once, on one line and indented, and in a record they stand in the same way.
    Scopes of finite numbers that do not agree have different bytes, and so have any records that
    they are saved in. -/
theorem saved_bytes_canonical (first second : List Change) :
    let s : Scope := changed .empty first
    let t : Scope := changed .empty second
    (s.Agrees t →
      utf8Bytes s.toJson.compact = utf8Bytes t.toJson.compact ∧
      utf8Bytes s.toJson.pretty = utf8Bytes t.toJson.pretty ∧
      ∀ st i checkpointVar,
        s.recordBytes st i checkpointVar = t.recordBytes st i checkpointVar) ∧
    s.InOrder ∧
    (∀ (st : State) i checkpointVar, ∃ before after, ∀ u : Scope,
      ({ st with globals := u }.save i checkpointVar).encode =
        before ++ Json.prettyAt 2 u.toJson ++ after) ∧
    (s.Finite → t.Finite → ¬ s.Agrees t →
      utf8Bytes s.toJson.compact ≠ utf8Bytes t.toJson.compact ∧
      utf8Bytes s.toJson.pretty ≠ utf8Bytes t.toJson.pretty ∧
      ∀ st st' i i' checkpointVar checkpointVar',
        s.recordBytes st i checkpointVar ≠ t.recordBytes st' i' checkpointVar') := by
  intro s t
  have hrecord (st : State) (i : Identity) (checkpointVar : String) : ∃ before after,
      ∀ u : Scope, ({ st with globals := u }.save i checkpointVar).encode =
        before ++ Json.prettyAt 2 u.toJson ++ after :=
    Record.exists_encode_eq (st.save i checkpointVar)
  refine ⟨fun hagrees => ?_, s.inOrder, hrecord, fun hs ht hne => ⟨fun h => ?_, fun h => ?_,
    fun st st' i i' checkpointVar checkpointVar' h => ?_⟩⟩
  · have htree := toJson_eq_of_agrees hagrees
    refine ⟨by rw [htree], by rw [htree], fun st i checkpointVar => ?_⟩
    obtain ⟨before, after, hencode⟩ := hrecord st i checkpointVar
    rw [recordBytes, recordBytes, hencode s, hencode t, htree]
  · have htree := Json.compact_inj (every_toJson hs) (every_toJson ht) (utf8Bytes_inj h)
    exact hne (agrees_of_toJson_eq hs ht htree)
  · have htree := Json.prettyAt_inj 0 (every_toJson hs) (every_toJson ht) (utf8Bytes_inj h)
    exact hne (agrees_of_toJson_eq hs ht htree)
  · exact hne (Record.scope_of_encode hs ht (utf8Bytes_inj h))

/-- A zero of either sign counts as one number; the text `5` and the number 5 are two values, and
    so are a list and a text that looks like one. -/
theorem saved_bytes_canonical_of_zeros :
    let first : List Change :=
      [.create "gold" (.number 0), .modify ⟨"élan", .set, .text "5"⟩,
        .modify ⟨"seen", .append, .text "inn"⟩]
    let second : List Change :=
      [.modify ⟨"seen", .set, .null⟩, .modify ⟨"élan", .set, .number 5⟩,
        .modify ⟨"élan", .append, .text "mill"⟩, .create "gold" (.number (-0.0)),
        .modify ⟨"seen", .append, .list ["inn"]⟩, .modify ⟨"élan", .set, .text "5"⟩]
    let third : List Change :=
      [.create "élan" (.number 5), .create "seen" (.text "[\"inn\"]"), .create "gold" (.number 0)]
    let s : Scope := changed .empty first
    let t : Scope := changed .empty second
    let u : Scope := changed .empty third
    s.Agrees t ∧ (∀ st i var, s.recordBytes st i var = t.recordBytes st i var) ∧
    s.Finite ∧ u.Finite ∧ ¬ s.Agrees u ∧ utf8Bytes s.toJson.compact ≠ utf8Bytes u.toJson.compact ∧
    ∀ st st' i i' var var', s.recordBytes st i var ≠ u.recordBytes st' i' var' := by
  intro first second third s t u
  have hagrees : s.Agrees t := by decide +kernel
  have hs : s.Finite := by decide +kernel
  have hu : u.Finite := by decide +kernel
  have hne : ¬ s.Agrees u := by decide +kernel
  obtain ⟨hsame, -⟩ := saved_bytes_canonical first second
  obtain ⟨-, -, -, hdiffer⟩ := saved_bytes_canonical first third
  exact ⟨hagrees, (hsame hagrees).2.2, hs, hu, hne, (hdiffer hs hu hne).1, (hdiffer hs hu hne).2.2⟩

end Scope

end Parley
