/-
  Parley.Proofs.Action.Spelling

  The spelling of a record does not matter. A tag and an assignment of values to its fields can
  be written as an object, with accepted names, in any order and among further entries, or as an
  array (`Action.Spelling`). Some values have several spellings as well: operations have two
  names, and the options of a choice are records themselves (`SameValue`). All spellings are
  refused, or all read as one action (`Action.spelling_immaterial`), since each reads as what the
  assignment reads as (`Action.Spelling.read_eq_ok`).
-/
import Parley.Action.Record
import Parley.Proofs.Json.Spelling

namespace Parley

/-! ### Spellings of values -/

namespace MutationOp

/-- The second tree is the first one, perhaps with `increment` in place of `add`. -/
inductive Respelled : Json → Json → Prop
  | same (j : Json) : Respelled j j
  | name : Respelled (.str "add") (.str "increment")
  | entry (data : Json) : Respelled (.obj [("add", data)]) (.obj [("increment", data)])

theorem read_respelled {j j' : Json} (h : Respelled j j') (bare : Bool) :
    read bare j = read bare j' := by
  cases h <;> rfl

end MutationOp

namespace ChoiceOption

/-- The second tree is the first one, or both are records of one assignment. -/
inductive Respelled : Json → Json → Prop
  | same (j : Json) : Respelled j j
  | record {given : List (Option Json)} {j j' : Json} (h : fields.Spells given j)
      (h' : fields.Spells given j') : Respelled j j'

theorem read_respelled {j j' : Json} (h : Respelled j j') (o : ChoiceOption) :
    read j = .ok o ↔ read j' = .ok o := by
  cases h with
  | same => rfl
  | record h h' =>
      have hseparate : fields.separate = true := rfl
      simp only [read, Decode.map_eq_ok, Fields.read_iff hseparate h, Fields.read_iff hseparate h']

end ChoiceOption

/-- Two values for a field of the tag that differ at most in the spelling of an operation, or of
    options. -/
inductive SameValue (tag name : String) : Json → Json → Prop
  | same (j : Json) : SameValue tag name j j
  | operation {j j' : Json} (htag : tag = "modify_variable" ∨ tag = "modify_global")
      (hname : name = "action") (h : MutationOp.Respelled j j') : SameValue tag name j j'
  | options {js js' : List Json} (htag : tag = "choice" ∨ tag = "night_choice")
      (hname : name = "choice") (h : List.Forall₂ ChoiceOption.Respelled js js') :
      SameValue tag name (.arr js) (.arr js')

theorem SameValue.eq_of_ne {tag name : String} {j j' : Json} (h : SameValue tag name j j')
    (haction : name ≠ "action") (hchoice : name ≠ "choice") : j = j' := by
  cases h with
  | same => rfl
  | operation _ hname => exact absurd hname haction
  | options _ hname => exact absurd hname hchoice

namespace Kind

/-! ### The catalogue -/

/-- No name belongs to two fields of a tag, and none is that of the tag itself. -/
theorem wellNamed (tag : String) :
    (ofTag tag).fields.separate = true ∧ (ofTag tag).fields.accepts "type" = false := by
  -- The kind is named first: its types depend on the tag, so the match is split in an equation.
  generalize hkind : ofTag tag = kind
  unfold ofTag at hkind
  split at hkind <;> subst hkind <;> exact ⟨rfl, rfl⟩

theorem respects_mutation (tag : String) : Mutation.fields.Respects (SameValue tag) := by
  refine ⟨?_, ?_, ?_, trivial⟩
  · intro j j' h a
    rw [h.eq_of_ne (by decide) (by decide)]
  · intro j j' h a
    cases h with
    | same => rfl
    | operation _ _ h => exact iff_of_eq (congrArg (· = _) (MutationOp.read_respelled h true))
    | options _ hname => exact absurd hname (by decide)
  · intro j j' h a
    rw [h.eq_of_ne (by decide) (by decide)]

theorem respects_options (tag : String) :
    (Fields.cons optionsField .nil).Respects (SameValue tag) := by
  refine ⟨?_, trivial⟩
  intro j j' h a
  cases h with
  | same => rfl
  | operation _ hname => exact absurd hname (by decide)
  | options _ _ h =>
      exact Decode.items_congr (fun _ _ hsame => ChoiceOption.read_respelled hsame) h

theorem respects (tag : String) : (ofTag tag).fields.Respects (SameValue tag) := by
  by_cases hmutation : tag = "modify_variable" ∨ tag = "modify_global"
  · rcases hmutation with rfl | rfl <;> exact respects_mutation _
  by_cases hchoice : tag = "choice" ∨ tag = "night_choice"
  · rcases hchoice with rfl | rfl <;> exact respects_options _
  · -- No value of another tag has two spellings.
    refine Fields.respects_of_eq ?_ _
    intro name j j' h
    cases h with
    | same => rfl
    | operation htag => exact absurd htag hmutation
    | options htag => exact absurd htag hchoice

end Kind

/-! ### Spellings of records -/

namespace Action

/-- The tree is a record of the tag and the assignment. -/
inductive Spelling (tag : String) (given : List (Option Json)) : Json → Prop
  | object {values : List (Option Json)} {es es' : List (String × Json)}
      (hvalues : (Kind.ofTag tag).fields.Alike (SameValue tag) given values)
      (hspells : (Kind.ofTag tag).fields.Spells values (.obj es))
      (hnew : ∀ e ∈ es, e.1 ≠ "type") (hperm : es'.Perm (("type", .str tag) :: es)) :
      Spelling tag given (.obj es')
  | array {values : List (Option Json)} {js : List Json}
      (hvalues : (Kind.ofTag tag).fields.Alike (SameValue tag) given values)
      (hspells : (Kind.ofTag tag).fields.Spells values (.arr js)) :
      Spelling tag given (.arr (.str tag :: js))

/-- The object of an assignment, with exactly its fields under their first names. -/
def recordOf (tag : String) (given : List (Option Json)) : Json :=
  .obj (("type", .str tag) :: (Kind.ofTag tag).fields.entriesOf given)

theorem spelling_recordOf {tag : String} {given : List (Option Json)}
    (h : given.length = (Kind.ofTag tag).fields.count) :
    Spelling tag given (recordOf tag given) := by
  have hnames := Fields.names_entriesOf h
  have hspells : (Kind.ofTag tag).fields.Spells given
      (.obj ((Kind.ofTag tag).fields.entriesOf given)) :=
    .object hnames (List.forall_mem_nil _) (by rw [List.append_nil])
  refine .object (Fields.alike_self (fun _ => .same) h) hspells ?_ (.refl _)
  intro e he htype
  have haccepts := hnames.accepts e he
  rw [htype, (Kind.wellNamed tag).2] at haccepts
  cases haccepts

theorem read_obj_of_tag {tag : String} {es : List (String × Json)}
    (h : Table.find "type" es = some (.str tag)) :
    read (.obj es) = ((Kind.ofTag tag).fields.ofEntries es).map (Kind.ofTag tag).build := by
  rw [read, h]
  show (do let row ← (Kind.ofTag tag).fields.ofEntries es; return _) = _
  cases (Kind.ofTag tag).fields.ofEntries es <;> rfl

theorem read_arr_of_tag (tag : String) (js : List Json) :
    read (.arr (.str tag :: js)) =
      ((Kind.ofTag tag).fields.ofArray (Kind.ofTag tag).title js).map (Kind.ofTag tag).build := by
  show (do let row ← (Kind.ofTag tag).fields.ofArray (Kind.ofTag tag).title js; return _) = _
  cases (Kind.ofTag tag).fields.ofArray (Kind.ofTag tag).title js <;> rfl

/-- A spelling reads as what the assignment reads as. -/
theorem Spelling.read_eq_ok {tag : String} {given : List (Option Json)} {j : Json}
    (h : Spelling tag given j) {a : Action} :
    read j = .ok a ↔
      ∃ row, (Kind.ofTag tag).fields.Reads given row ∧ (Kind.ofTag tag).build row = a := by
  cases h with
  | @object values es es' hvalues hspells hnew hperm =>
      have htag : Table.find "type" es' = some (.str tag) := by
        have hrest : es.filter (fun e => e.1 == "type") = [] :=
          List.filter_eq_nil_iff.2 fun e he => by simp [hnew e he]
        have hfilter := hperm.filter fun e => e.1 == "type"
        rw [List.filter_cons_of_pos (by rfl), hrest] at hfilter
        rw [← Table.find_filter (· == "type") (by rfl), hfilter.eq_singleton]
        rfl
      cases hspells with
      | @object named extra _ hnames hextra hfields =>
          -- To the fields the tag is one more entry that none of them takes.
          have hextra' : ∀ e ∈ ("type", .str tag) :: extra,
              (Kind.ofTag tag).fields.accepts e.1 = false :=
            List.forall_mem_cons.2 ⟨(Kind.wellNamed tag).2, hextra⟩
          have hentries : es'.Perm (named ++ ("type", .str tag) :: extra) :=
            hperm.trans ((hfields.cons _).trans List.perm_middle.symm)
          simp only [read_obj_of_tag htag, Decode.map_eq_ok,
            Fields.ofEntries_iff (Kind.wellNamed tag).1 hnames hextra' hentries,
            Fields.reads_congr (Kind.respects tag) hvalues]
  | @array values js hvalues hspells =>
      cases hspells with
      | array hlists =>
          simp only [read_arr_of_tag, Decode.map_eq_ok, Fields.ofArray_iff hlists,
            Fields.reads_congr (Kind.respects tag) hvalues]

/-- For every tag and every assignment of values to its fields: if the assignment reads as a row,
    all records of it read as the action that the tag makes of the row, and else none of them
    reads. The object with exactly the assigned fields under their first names is one of the
    records. Entries that are not declared by the tag change nothing about an object, also not
    the error. -/
theorem spelling_immaterial (tag : String) (given : List (Option Json)) :
    ((∃ row, (Kind.ofTag tag).fields.Reads given row ∧
        ∀ j, Spelling tag given j → read j = .ok ((Kind.ofTag tag).build row)) ∨
      (¬ ∃ row, (Kind.ofTag tag).fields.Reads given row) ∧
        ∀ j, Spelling tag given j → ∃ e, read j = .error e) ∧
      (given.length = (Kind.ofTag tag).fields.count → Spelling tag given (recordOf tag given)) ∧
      ∀ es : List (String × Json), Table.find "type" es = some (.str tag) →
        read (.obj (es.filter fun e => e.1 == "type" || (Kind.ofTag tag).fields.accepts e.1)) =
          read (.obj es) := by
  refine ⟨?_, spelling_recordOf, ?_⟩
  · by_cases hreads : ∃ row, (Kind.ofTag tag).fields.Reads given row
    · obtain ⟨row, hrow⟩ := hreads
      exact .inl ⟨row, hrow, fun j hj => hj.read_eq_ok.2 ⟨row, hrow, rfl⟩⟩
    · refine .inr ⟨hreads, fun j hj => ?_⟩
      cases hread : read j with
      | error e => exact ⟨e, rfl⟩
      | ok a =>
          obtain ⟨row, hrow, -⟩ := hj.read_eq_ok.1 hread
          exact absurd ⟨row, hrow⟩ hreads
  · intro es htag
    let declared (name : String) : Bool := name == "type" || (Kind.ofTag tag).fields.accepts name
    have htag' : Table.find "type" (es.filter fun e => declared e.1) = some (.str tag) := by
      rw [Table.find_filter declared (by rfl), htag]
    rw [read_obj_of_tag htag, read_obj_of_tag htag', Fields.ofEntries_filter declared]
    intro name hname
    simp [declared, hname]

/-- A mutation without value, and a choice, in the forms that records have. -/
theorem spelling_immaterial_forms :
    (∀ j ∈
        [Json.obj [("type", .str "modify_variable"), ("var", .str "x"), ("action", .str "add")],
          .obj [("mood", .null), ("action", .str "increment"), ("var", .str "x"),
            ("type", .str "modify_variable")],
          .arr [.str "modify_variable", .str "x", .str "increment"]],
        read j = .ok (.modifyLocal ⟨"x", .add, .null⟩)) ∧
      ∀ j ∈
        [Json.obj [("type", .str "choice"),
            ("choice", .arr [.obj [("label", .str "left"), ("text", .str "Go left")]])],
          .obj [("choice", .arr [.obj [("content", .str "Go left"), ("label", .str "left")]]),
            ("type", .str "choice")],
          .arr [.str "choice", .arr [.arr [.str "left", .str "Go left"]]]],
        read j = .ok (.choice [⟨"left", "Go left"⟩]) := by
  constructor
  · let given : List (Option Json) := [some (.str "x"), some (.str "add"), none]
    have hreads : Mutation.fields.Reads given ("x", .add, .null, ()) := ⟨rfl, rfl, rfl, rfl⟩
    have hvalues : Mutation.fields.Alike (SameValue "modify_variable") given
        [some (.str "x"), some (.str "increment"), none] :=
      .given (.same _) (.given (.operation (.inl rfl) rfl .name) (.absent .nil))
    have hobject : Mutation.fields.Spells [some (.str "x"), some (.str "increment"), none]
        (.obj [("var", .str "x"), ("action", .str "increment"), ("mood", .null)]) :=
      .object (.given rfl (.given rfl (.absent .nil))) (List.forall_mem_singleton.2 rfl) (.refl _)
    have harray : Mutation.fields.Spells [some (.str "x"), some (.str "increment"), none]
        (.arr [.str "x", .str "increment"]) := .array (.given (.given (.absent rfl .nil)))
    obtain ⟨hall, hrecord, -⟩ := spelling_immaterial "modify_variable" given
    obtain ⟨row, -, hread⟩ := hall.resolve_right fun h => h.1 ⟨_, hreads⟩
    have hsame {j : Json} (hj : Spelling "modify_variable" given j) :
        read j = .ok (.modifyLocal ⟨"x", .add, .null⟩) :=
      (hread j hj).trans (hread _ (hrecord rfl)).symm
    simp only [List.forall_mem_cons]
    exact ⟨hsame (hrecord rfl),
      hsame (.object hvalues hobject (by simp) (List.reverse_perm [_, _, _, _])),
      hsame (.array hvalues harray), List.forall_mem_nil _⟩
  · let given : List (Option Json) :=
      [some (.arr [.obj [("label", .str "left"), ("text", .str "Go left")]])]
    have hreads : (Kind.ofTag "choice").fields.Reads given ([⟨"left", "Go left"⟩], ()) :=
      ⟨rfl, rfl⟩
    have hfirst : ChoiceOption.fields.Spells [some (.str "left"), some (.str "Go left")]
        (.obj [("label", .str "left"), ("text", .str "Go left")]) :=
      .object (.given rfl (.given rfl .nil)) (List.forall_mem_nil _) (.refl _)
    have hsecond : ChoiceOption.fields.Spells [some (.str "left"), some (.str "Go left")]
        (.obj [("content", .str "Go left"), ("label", .str "left")]) :=
      .object (.given rfl (.given rfl .nil)) (List.forall_mem_nil _) (List.reverse_perm [_, _])
    have hthird : ChoiceOption.fields.Spells [some (.str "left"), some (.str "Go left")]
        (.arr [.str "left", .str "Go left"]) := .array (.given (.given .nil))
    have hvalues {j : Json}
        (h : ChoiceOption.fields.Spells [some (.str "left"), some (.str "Go left")] j) :
        (Kind.ofTag "choice").fields.Alike (SameValue "choice") given [some (.arr [j])] :=
      .given (.options (.inl rfl) rfl (.cons (.record hfirst h) .nil)) .nil
    have hobject (j : Json) : (Kind.ofTag "choice").fields.Spells [some j] (.obj [("choice", j)]) :=
      .object (.given rfl .nil) (List.forall_mem_nil _) (.refl _)
    have harray (j : Json) : (Kind.ofTag "choice").fields.Spells [some j] (.arr [j]) :=
      .array (.given .nil)
    obtain ⟨hall, hrecord, -⟩ := spelling_immaterial "choice" given
    obtain ⟨row, -, hread⟩ := hall.resolve_right fun h => h.1 ⟨_, hreads⟩
    have hsame {j : Json} (hj : Spelling "choice" given j) :
        read j = .ok (.choice [⟨"left", "Go left"⟩]) :=
      (hread j hj).trans (hread _ (hrecord rfl)).symm
    simp only [List.forall_mem_cons]
    exact ⟨hsame (hrecord rfl),
      hsame (.object (hvalues hsecond) (hobject _) (by simp) (List.reverse_perm [_, _])),
      hsame (.array (hvalues hthird) (harray _)), List.forall_mem_nil _⟩

end Action

end Parley
