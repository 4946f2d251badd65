/-
  Parley.Proofs.Action.Record

  Actions read back off their records. A record is written with every field of its tag, and
  with no name twice (`Action.fieldsJson`), so the fields read back in whatever order the
  entries stand, with the tag anywhere among them (`Action.read_of_writes`).

  The values in an action come back as `Value.plain`, so what comes back is the plain form of
  the action (`Action.read_reordered`), which is equal to it as actions are compared
  (`Action.plain_beq`). Amounts have to fit 32 bits, and positions 64.
-/
import Parley.Program
import Parley.Proofs.Value.Json

namespace Parley

deriving instance ReflBEq, LawfulBEq for MutationOp, Predicate, ChoiceOption

variable {f : Json → Json} (hf : Json.Reorders f)

/-! ### Fields -/

namespace Fields

variable {αs : List Type} {fs : Fields αs} {name : String} {es : List (String × Json)}
  {row : Row αs}

include hf

theorem Writes.textField (s : String) (hother : ∀ e ∈ es, e.1 ≠ name) (hrest : fs.Writes es row) :
    (Fields.cons (Kind.textField name) fs).Writes ((name, f (.str s)) :: es) (s, row) := by
  rw [hf.str]
  exact .required rfl hother hrest

theorem Writes.optionalText (s : Option String) (hother : ∀ e ∈ es, e.1 ≠ name)
    (hrest : fs.Writes es row) :
    (Fields.cons (Kind.optionalText name) fs).Writes ((name, f (Action.optionJson s)) :: es)
      (s, row) := by
  rw [Action.optionJson, hf.ofOption_str]
  exact .withDefault (Decode.option_text s) hother hrest

theorem Writes.value (v : Value) (hother : ∀ e ∈ es, e.1 ≠ name) (hrest : fs.Writes es row) :
    (Fields.cons (.withDefault name Value.read .null) fs).Writes ((name, f v.toJson) :: es)
      (v.plain, row) :=
  .withDefault (Value.read_reordered hf v) hother hrest

end Fields

/-! ### Parts of records -/

theorem MutationOp.read_name (op : MutationOp) : MutationOp.read true (.str op.name) = .ok op := by
  cases op <;> rfl

theorem Predicate.read_name (p : Predicate) : Predicate.read true (.str p.name) = .ok p := by
  cases p <;> rfl

namespace Mutation

/-- The mutation as it comes back from its record. -/
def plain (m : Mutation) : Mutation := { m with value := m.value.plain }

theorem plain_beq {m : Mutation} (h : m.value.Finite) : (m.plain == m) = true := by
  show (m.var == m.var && (m.op == m.op && m.value.plain == m.value)) = true
  rw [beq_self_eq_true, beq_self_eq_true, Value.plain_beq h]
  rfl

include hf

theorem writes (m : Mutation) :
    fields.Writes (Json.mapEntries f (Action.fieldsJson (.modifyLocal m)))
      (m.var, m.op, m.value.plain, ()) := by
  have hop : MutationOp.read true (f (.str m.op.name)) = .ok m.op := by
    rw [hf.str]
    exact m.op.read_name
  simp only [Action.fieldsJson, Json.mapEntries_cons, Json.mapEntries_nil]
  refine .textField hf m.var (by simp) ?_
  refine .required hop (by simp) ?_
  exact .value hf m.value (by simp) .nil

end Mutation

namespace Condition

/-- The condition as it comes back from its record. -/
def plain (c : Condition) : Condition := { c with value := c.value.plain }

theorem plain_beq {c : Condition} (h : c.value.Finite) : (c.plain == c) = true := by
  show (c.var == c.var && (c.predicate == c.predicate &&
    (c.value.plain == c.value && c.otherwise == c.otherwise))) = true
  rw [beq_self_eq_true, beq_self_eq_true, Value.plain_beq h, beq_self_eq_true]
  rfl

include hf

theorem writes {c : Condition} (h : c.otherwise < Nat.pow 2 64) :
    (fields true).Writes (Json.mapEntries f (Action.fieldsJson (.whenLocal c)))
      (c.var, c.predicate, c.value.plain, c.otherwise, ()) := by
  have hpredicate : Predicate.read true (f (.str c.predicate.name)) = .ok c.predicate := by
    rw [hf.str]
    exact c.predicate.read_name
  have hotherwise : Decode.position (f (.nat c.otherwise)) = .ok c.otherwise := by
    rw [hf.num]
    exact Decode.position_nat h
  simp only [Action.fieldsJson, Json.mapEntries_cons, Json.mapEntries_nil]
  refine .optionalText hf c.var (by simp) ?_
  refine .required hpredicate (by simp) ?_
  refine .value hf c.value (by simp) ?_
  exact .required hotherwise (by simp) .nil

end Condition

namespace ChoiceOption

include hf

theorem read_reordered (o : ChoiceOption) : read (f o.toJson) = .ok o := by
  have hwrites : fields.Writes (Json.mapEntries f [("label", .str o.label), ("text", .str o.text)])
      (o.label, o.text, ()) := by
    simp only [Json.mapEntries_cons, Json.mapEntries_nil, hf.str]
    refine .required rfl (by simp) ?_
    exact .cons rfl (by simp) .nil
  rw [read, toJson, Fields.read_reordered hf hwrites]
  rfl

end ChoiceOption

namespace Layout

/-- Every measure is finite. -/
def Finite (l : Layout) : Prop :=
  ∀ x ∈ [l.width, l.height, l.frameWidth, l.frameHeight, l.column, l.row], x.isFinite = true

instance : DecidablePred Finite := fun l =>
  inferInstanceAs (Decidable (∀ x ∈ [l.width, l.height, l.frameWidth, l.frameHeight, l.column,
    l.row], x.isFinite = true))

/-- Every measure is a number. -/
def Numeric (l : Layout) : Prop :=
  ∀ x ∈ [l.width, l.height, l.frameWidth, l.frameHeight, l.column, l.row], x.isNaN = false

instance : DecidablePred Numeric := fun l =>
  inferInstanceAs (Decidable (∀ x ∈ [l.width, l.height, l.frameWidth, l.frameHeight, l.column,
    l.row], x.isNaN = false))

theorem Finite.numeric {l : Layout} (h : l.Finite) : l.Numeric := fun x hx =>
  Value.beq_self_iff.1 (Value.beq_self_of_isFinite (h x hx))

theorem beq_self_iff {l : Layout} : (l == l) = true ↔ l.Numeric := by
  show (l.width == l.width && (l.height == l.height && (l.frameWidth == l.frameWidth &&
    (l.frameHeight == l.frameHeight && (l.column == l.column && l.row == l.row))))) = true ↔ _
  simp only [Bool.and_eq_true, Value.beq_self_iff, Numeric, List.forall_mem_cons, List.not_mem_nil,
    false_imp_iff, implies_true, and_true]

include hf

theorem read_reordered (l : Layout) : read (f l.toJson) = .ok l := by
  have hwrites : fields.Writes
      (Json.mapEntries f [("w_ratio", .float l.width), ("h_ratio", .float l.height),
        ("frame_w_ratio", .float l.frameWidth), ("frame_h_ratio", .float l.frameHeight),
        ("column", .float l.column), ("row", .float l.row)])
      (l.width, l.height, l.frameWidth, l.frameHeight, l.column, l.row, ()) := by
    simp only [Json.mapEntries_cons, Json.mapEntries_nil, hf.num]
    refine .withDefault rfl (by simp) ?_
    refine .withDefault rfl (by simp) ?_
    refine .withDefault rfl (by simp) ?_
    refine .withDefault rfl (by simp) ?_
    refine .withDefault rfl (by simp) ?_
    exact .withDefault rfl (by simp) .nil
  rw [read, toJson, Fields.read_reordered hf hwrites]
  rfl

theorem option_read_reordered (l : Option Layout) :
    Decode.option read (f (Json.ofOption toJson l)) = .ok l := by
  cases l with
  | none =>
      rw [Json.ofOption, hf.null]
      rfl
  | some l => exact Decode.option_of_read (l.read_reordered hf) nofun

end Layout

/-! ### Actions -/

namespace Action

/-- The numbers of the action are finite, and its amount and its position fit the integers they
    are read as. -/
def Writable : Action → Prop
  | .note _ _ init => init.Finite
  | .showSprite _ _ _ layout => ∀ l ∈ layout, l.Finite
  | .modifyLocal m | .modifyGlobal m => m.value.Finite
  | .giveItem _ amount => amount < Nat.pow 2 32
  | .whenLocal c | .whenGlobal c => c.value.Finite ∧ c.otherwise < Nat.pow 2 64
  | _ => True

instance : DecidablePred Writable
  | .note _ _ init => inferInstanceAs (Decidable init.Finite)
  | .showSprite _ _ _ layout => inferInstanceAs (Decidable (∀ l ∈ layout, l.Finite))
  | .modifyLocal m | .modifyGlobal m => inferInstanceAs (Decidable m.value.Finite)
  | .giveItem _ amount => inferInstanceAs (Decidable (amount < Nat.pow 2 32))
  | .whenLocal c | .whenGlobal c =>
      inferInstanceAs (Decidable (c.value.Finite ∧ c.otherwise < Nat.pow 2 64))
  | .removeSprite _ | .line .. | .transition .. | .choice _ | .nightChoice _ | .command _
  | .label _ | .setBackground _ | .clearBackground | .unlock _ | .playSound _ | .playMusic _
  | .checkpoint _ | .idleChat | .finish | .checkInventory | .unknown => isTrue trivial

/-- The action as it comes back from its record. -/
def plain : Action → Action
  | .note action var init => .note action var init.plain
  | .modifyLocal m => .modifyLocal m.plain
  | .modifyGlobal m => .modifyGlobal m.plain
  | .whenLocal c => .whenLocal c.plain
  | .whenGlobal c => .whenGlobal c.plain
  | a => a

theorem labelName?_plain (a : Action) : a.plain.labelName? = a.labelName? := by
  cases a <;> rfl

theorem plain_beq {a : Action} (h : a.Writable) : (a.plain == a) = true := by
  cases a with
  | note action var init =>
      show (action == action && (var == var && init.plain == init)) = true
      rw [beq_self_eq_true, beq_self_eq_true, Value.plain_beq h]
      rfl
  | showSprite sprite location position layout =>
      have hlayout : (layout == layout) = true := by
        cases layout with
        | none => rfl
        | some l => exact Layout.beq_self_iff.2 (h l rfl).numeric
      show (sprite == sprite && (location == location &&
        (position == position && layout == layout))) = true
      rw [beq_self_eq_true, beq_self_eq_true, beq_self_eq_true, hlayout]
      rfl
  | modifyLocal m | modifyGlobal m => exact Mutation.plain_beq h
  | whenLocal c | whenGlobal c => exact Condition.plain_beq h.1
  | line speaker content voice =>
      show (speaker == speaker && (content == content && voice == voice)) = true
      rw [beq_self_eq_true, beq_self_eq_true, beq_self_eq_true]
      rfl
  | giveItem item amount =>
      show (item == item && amount == amount) = true
      rw [beq_self_eq_true, beq_self_eq_true]
      rfl
  | transition action label =>
      show (action == action && label == label) = true
      rw [beq_self_eq_true, beq_self_eq_true]
      rfl
  | removeSprite s | command s | label s | setBackground s | playSound s =>
      exact beq_self_eq_true s
  | choice options | nightChoice options => exact beq_self_eq_true options
  | unlock events => exact beq_self_eq_true events
  | playMusic s | checkpoint s => exact beq_self_eq_true s
  | clearBackground | idleChat | finish | checkInventory | unknown => rfl

/-- No action has a field of the name of the tag. -/
theorem type_is_no_field (a : Action) : (Kind.ofTag a.tag).fields.accepts "type" = false := by
  cases a <;> rfl

include hf

/-- A record with all fields of its tag reads back: the tag is found wherever it stands, and is
    passed over among the fields. -/
theorem read_of_writes {a back : Action} (row : Row (Kind.ofTag a.tag).types)
    (h : (Kind.ofTag a.tag).fields.Writes (Json.mapEntries f a.fieldsJson) row)
    (hback : (Kind.ofTag a.tag).build row = back) : read (f a.toJson) = .ok back := by
  have hnew : ∀ e ∈ Json.mapEntries f a.fieldsJson, e.1 ≠ "type" := by
    intro e he htype
    have haccepts := h.accepts e he
    rw [htype, a.type_is_no_field] at haccepts
    cases haccepts
  have hnodup : ((("type", f (.str a.tag)) :: Json.mapEntries f a.fieldsJson).map (·.1)).Nodup := by
    refine List.nodup_cons.2 ⟨?_, h.nodup⟩
    intro hmem
    obtain ⟨e, he, htype⟩ := List.mem_map.1 hmem
    exact hnew e he htype
  have hnames : ((("type", .str a.tag) :: a.fieldsJson).map (·.1)).Nodup := by
    rw [← Json.names_mapEntries f]
    exact hnodup
  obtain ⟨es, hobj, hperm⟩ := hf.obj hnames
  have htag : Table.find "type" es = some (.str a.tag) := by
    rw [← hf.str]
    exact (Table.find_perm hperm hnodup "type").symm
  have hrow : (Kind.ofTag a.tag).fields.ofEntries es = .ok row := by
    -- The tag is still among the entries that the fields are read off.
    refine Fields.ofEntries_perm hperm ?_
    exact (Fields.ofEntries_cons_of_not_accepts a.type_is_no_field _).trans h.ofEntries
  rw [toJson, hobj, read, htag]
  show (do let row ← (Kind.ofTag a.tag).fields.ofEntries es; return _) = _
  rw [hrow, ← hback]
  rfl

theorem read_reordered {a : Action} (h : a.Writable) : read (f a.toJson) = .ok a.plain := by
  -- In each case the row holds the fields of the tag in declared order.
  cases a with
  | note action var init =>
      refine read_of_writes hf (action, var, init.plain, ()) ?_ rfl
      refine .optionalText hf action (by simp) ?_
      refine .optionalText hf var (by simp) ?_
      exact .value hf init (by simp) .nil
  | showSprite sprite location position layout =>
      refine read_of_writes hf (sprite, location, position, layout, ()) ?_ rfl
      refine .textField hf sprite (by simp) ?_
      refine .optionalText hf location (by simp) ?_
      refine .optionalText hf position (by simp) ?_
      exact .withDefault (Layout.option_read_reordered hf layout) (by simp) .nil
  | line speaker content voice =>
      refine read_of_writes hf (speaker, content, voice, ()) ?_ rfl
      refine .optionalText hf speaker (by simp) ?_
      refine .optionalText hf content (by simp) ?_
      exact .optionalText hf voice (by simp) .nil
  | modifyLocal m | modifyGlobal m =>
      exact read_of_writes hf (m.var, m.op, m.value.plain, ()) (m.writes hf) rfl
  | giveItem item amount =>
      have hamount : Decode.natBelow (Nat.pow 2 32) "u32" (f (.nat amount)) = .ok amount := by
        rw [hf.num]
        exact Decode.natBelow_nat h "u32"
      refine read_of_writes hf (item, amount, ()) ?_ rfl
      refine .textField hf item (by simp) ?_
      exact .required hamount (by simp) .nil
  | whenLocal c | whenGlobal c =>
      exact read_of_writes hf (c.var, c.predicate, c.value.plain, c.otherwise, ())
        (Condition.writes hf h.2) rfl
  | transition action label =>
      refine read_of_writes hf (action, label, ()) ?_ rfl
      refine .textField hf action (by simp) ?_
      exact .optionalText hf label (by simp) .nil
  | choice options | nightChoice options =>
      have hoptions : Decode.list ChoiceOption.read (f (.arr (options.map ChoiceOption.toJson))) =
          .ok options := hf.list_read fun o _ => o.read_reordered hf
      exact read_of_writes hf (options, ()) (.withDefault hoptions (by simp) .nil) rfl
  | unlock events =>
      have hevents : Decode.texts (f (.texts events)) = .ok events := by
        rw [hf.texts]
        exact Decode.texts_texts events
      exact read_of_writes hf (events, ()) (.required hevents (by simp) .nil) rfl
  | removeSprite s | command s | setBackground s | playSound s =>
      exact read_of_writes hf (s, ()) (.textField hf s (by simp) .nil) rfl
  | label name =>
      -- The only field with another name, under which it is not written.
      have hname : Decode.text (f (.str name)) = .ok name := by rw [hf.str]; rfl
      exact read_of_writes hf (name, ()) (.cons hname (by simp) .nil) rfl
  | playMusic s | checkpoint s =>
      exact read_of_writes hf (s, ()) (.optionalText hf s (by simp) .nil) rfl
  | clearBackground | idleChat | finish | checkInventory | unknown =>
      exact read_of_writes hf () .nil rfl

end Action

end Parley
