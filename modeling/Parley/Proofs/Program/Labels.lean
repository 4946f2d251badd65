/-
  Parley.Proofs.Program.Labels

  What a program holds that was loaded from records: one slot for each record, in order, and for
  every label the last record that reads as its definition (`load_keeps_records`).

  The slots are entered into the index one after another, each over the ones before it. So what is
  known of a label is always its last definition so far (`get?_index_eq_some_iff`), and `resolve`
  returns the last position of all that defines it (`resolve_eq_some_iff`), and nothing only if
  there is none (`resolve_eq_none_iff`). Nothing else is read of a program to resolve its labels,
  so two programs that define the same labels at the same positions resolve them alike
  (`resolve_congr`).
-/
import Parley.Program
import Parley.Proofs.Table

namespace Parley

theorem Action.labelName?_eq_some_iff {a : Action} {name : String} :
    a.labelName? = some name ↔ a = .label name := by
  cases a <;> simp [labelName?]

theorem Slot.labelName?_eq_some_iff {slot : Slot} {name : String} :
    slot.labelName? = some name ↔ slot = .action (.label name) := by
  cases slot with
  | malformed tag reason => simp [labelName?]
  | action a => simp [labelName?, Action.labelName?_eq_some_iff]

namespace Program

/-! ### The last definition -/

/-- The slot at the position defines the label, and no later slot does. -/
def LastAt (slots : List Slot) (label : String) (position : Nat) : Prop :=
  slots[position]? = some (.action (.label label)) ∧
    ∀ later, position < later → slots[later]? ≠ some (.action (.label label))

theorem LastAt.unique {slots : List Slot} {label : String} {i j : Nat}
    (hi : LastAt slots label i) (hj : LastAt slots label j) : i = j := by
  rcases Nat.lt_trichotomy i j with hlt | heq | hgt
  · exact absurd hj.1 (hi.2 j hlt)
  · exact heq
  · exact absurd hi.1 (hj.2 i hgt)

/-- Behind the slots that there are, a further slot stands at the next position. -/
theorem concat_eq_label_iff {slots : List Slot} {slot : Slot} {label : String} {position : Nat} :
    (slots ++ [slot])[position]? = some (.action (.label label)) ↔
      slots[position]? = some (.action (.label label)) ∨
        position = slots.length ∧ slot.labelName? = some label := by
  rw [Slot.labelName?_eq_some_iff]
  rcases Nat.lt_trichotomy position slots.length with hlt | rfl | hgt
  · rw [List.getElem?_append_left hlt]
    simp [hlt.ne]
  · simp
  · have hbeyond : (slots ++ [slot]).length ≤ position := by simpa using Nat.succ_le_of_lt hgt
    rw [List.getElem?_eq_none hbeyond, List.getElem?_eq_none hgt.le]
    simp [hgt.ne']

theorem lastAt_concat_of_defines {slots : List Slot} {slot : Slot} {label : String}
    (h : slot.labelName? = some label) : LastAt (slots ++ [slot]) label slots.length := by
  refine ⟨concat_eq_label_iff.2 (.inr ⟨rfl, h⟩), ?_⟩
  intro later hlater hslot
  rcases concat_eq_label_iff.1 hslot with hold | ⟨rfl, -⟩
  · rw [List.getElem?_eq_none hlater.le] at hold
    cases hold
  · exact Nat.lt_irrefl _ hlater

theorem lastAt_concat_of_not_defines {slots : List Slot} {slot : Slot} {label : String}
    {position : Nat} (h : slot.labelName? ≠ some label) :
    LastAt (slots ++ [slot]) label position ↔ LastAt slots label position := by
  simp only [LastAt, ne_eq, concat_eq_label_iff, h, and_false, or_false]

/-! ### The index -/

theorem index_concat (slots : List Slot) (slot : Slot) :
    index (slots ++ [slot]) = enter (index slots) slot slots.length := by
  simp [index, List.zipIdx_append]

theorem get?_enter_of_defines {labels : Table Nat} {slot : Slot} {label : String} (position : Nat)
    (h : slot.labelName? = some label) :
    (enter labels slot position).get? label = some position := by
  rw [enter, h]
  exact Table.get?_insert_self labels label position

theorem get?_enter_of_not_defines {labels : Table Nat} {slot : Slot} {label : String}
    (position : Nat) (h : slot.labelName? ≠ some label) :
    (enter labels slot position).get? label = labels.get? label := by
  unfold enter
  split
  · rename_i name hname
    refine Table.get?_insert_of_ne labels ?_ position
    rintro rfl
    exact h hname
  · rfl

/-- The index holds the last definition of each label. -/
theorem get?_index_eq_some_iff {slots : List Slot} {label : String} {position : Nat} :
    (index slots).get? label = some position ↔ LastAt slots label position := by
  -- From the back, since each slot is entered over the ones before it.
  induction slots using List.reverseRecOn with
  | nil => exact ⟨nofun, nofun⟩
  | append_singleton slots slot ih =>
      rw [index_concat]
      by_cases hname : slot.labelName? = some label
      · have hlast : LastAt (slots ++ [slot]) label slots.length := lastAt_concat_of_defines hname
        rw [get?_enter_of_defines _ hname, Option.some.injEq]
        constructor
        · rintro rfl
          exact hlast
        · exact hlast.unique
      · rw [get?_enter_of_not_defines _ hname, ih, lastAt_concat_of_not_defines hname]

/-- A label that is not in the index is not defined. -/
theorem get?_index_eq_none_iff {slots : List Slot} {label : String} :
    (index slots).get? label = none ↔
      ∀ position : Nat, slots[position]? ≠ some (.action (.label label)) := by
  induction slots using List.reverseRecOn with
  | nil => simp [index]
  | append_singleton slots slot ih =>
      rw [index_concat]
      by_cases hname : slot.labelName? = some label
      · have hlast : LastAt (slots ++ [slot]) label slots.length := lastAt_concat_of_defines hname
        rw [get?_enter_of_defines _ hname]
        exact ⟨nofun, fun h => absurd hlast.1 (h slots.length)⟩
      · rw [get?_enter_of_not_defines _ hname, ih]
        simp only [ne_eq, concat_eq_label_iff, hname, and_false, or_false]

/-! ### Labels of programs -/

variable {p p' : Program} {label : String} {position : Nat}

theorem fetch_eq_label_iff :
    p.fetch position = .action (.label label) ↔
      p.slots.toList[position]? = some (.action (.label label)) := by
  rw [fetch, Array.getElem?_toList]
  split <;> simp_all

/-- A label resolves to the last position that defines it. -/
theorem resolve_eq_some_iff :
    p.resolve label = some position ↔
      p.fetch position = .action (.label label) ∧
        ∀ later, position < later → p.fetch later ≠ .action (.label label) := by
  simp only [ne_eq, fetch_eq_label_iff]
  rw [resolve, p.indexed]
  exact get?_index_eq_some_iff

/-- A label does not resolve only if no position defines it. -/
theorem resolve_eq_none_iff :
    p.resolve label = none ↔ ∀ position, p.fetch position ≠ .action (.label label) := by
  simp only [ne_eq, fetch_eq_label_iff]
  rw [resolve, p.indexed]
  exact get?_index_eq_none_iff

theorem target_eq_none_iff : p.target label = none ↔ p.resolve label = none :=
  Option.map_eq_none_iff

theorem target_of_resolve (h : p.resolve label = some position) :
    p.target label = some (position + 1) := by
  rw [target, h, Option.map_some]

/-- Only the definitions of labels count. -/
theorem resolve_congr
    (h : ∀ position, p.fetch position = .action (.label label) ↔
      p'.fetch position = .action (.label label)) :
    p.resolve label = p'.resolve label := by
  apply Option.ext
  intro position
  simp only [resolve_eq_some_iff, ne_eq, h]

/-- The names in the index are the labels that some position defines. -/
theorem mem_names_labels :
    label ∈ p.labels.names ↔ ∃ position, p.fetch position = .action (.label label) := by
  rw [Table.mem_names_iff, ← not_iff_not, not_exists, Bool.not_eq_true, Option.isSome_eq_false_iff,
    Option.isNone_iff_eq_none]
  exact resolve_eq_none_iff

/-! ### Loaded programs -/

theorem size_load (records : List Json) : (load records).size = records.length := by
  rw [size, load, ofSlots, List.size_toArray, List.length_map]

/-- A loaded program holds at every position what its record reads as. -/
theorem fetch_load (records : List Json) (position : Nat) :
    (load records).fetch position =
      match records[position]? with
      | none => .endOfProgram
      | some record =>
        match Action.read record with
        | .ok a => .action a
        | .error e => .malformed (Slot.shownTag record) e.message := by
  rw [fetch, load, ofSlots, List.getElem?_toArray, List.getElem?_map]
  cases records[position]? with
  | none => rfl
  | some record =>
      simp only [Option.map_some, Slot.ofRecord]
      cases Action.read record with
      | ok a => rfl
      | error e => rfl

/-- The record at the position reads as a definition of the label. -/
def Defines (records : List Json) (label : String) (position : Nat) : Prop :=
  ∃ record, records[position]? = some record ∧ Action.read record = .ok (.label label)

theorem fetch_load_eq_label_iff {records : List Json} :
    (load records).fetch position = .action (.label label) ↔ Defines records label position := by
  rw [fetch_load, Defines]
  cases records[position]? with
  | none => simp
  | some record =>
      simp only [Option.some.injEq, exists_eq_left']
      cases Action.read record with
      | ok a => simp
      | error e => simp

/-- A loaded program keeps its records, and a label stands for its last definition. There is one
    slot for each record: the action that the record reads as, or else the text of its `type`
    with the reason why it does not read; behind the last record is the end. A label resolves to a
    position if and only if the record there defines it and no later one does, and to none if and
    only if no record defines it. And there are as many labels as different names are defined. -/
theorem load_keeps_records (records : List Json) :
    let p := load records
    p.size = records.length ∧
    (∀ position, p.fetch position =
      match records[position]? with
      | none => .endOfProgram
      | some record =>
        match Action.read record with
        | .ok a => .action a
        | .error e =>
          let tag := match record.get? "type" with
            | some (.str tag) => tag
            | _ => "<missing>"
          .malformed tag e.message) ∧
    (∀ label position, p.resolve label = some position ↔
      Defines records label position ∧
        ∀ later, position < later → ¬ Defines records label later) ∧
    (∀ label, p.resolve label = none ↔ ∀ position, ¬ Defines records label position) ∧
    ∃ names : List String, names.Nodup ∧
      (∀ label, label ∈ names ↔ ∃ position, Defines records label position) ∧
      p.labelCount = names.length := by
  intro p
  refine ⟨size_load records, fetch_load records, ?_, ?_, ?_⟩
  · intro label position
    simp only [p, resolve_eq_some_iff, ne_eq, fetch_load_eq_label_iff]
  · intro label
    simp only [p, resolve_eq_none_iff, ne_eq, fetch_load_eq_label_iff]
  · refine ⟨p.labels.names, p.labels.nodup_names, ?_, (List.length_map ..).symm⟩
    intro label
    simp only [p, mem_names_labels, fetch_load_eq_label_iff]

/-- A label that is defined twice, the second time by its other field name, with records between
    that do not read: a label that is no text, and one without a type. The last record is an
    array. -/
theorem load_keeps_records_mixed :
    let records : List Json :=
      [.obj [("type", .str "label"), ("label", .str "inn")],
        .obj [("type", .str "label"), ("label", .int 5)],
        .obj [("type", .str "label"), ("name", .str "inn")],
        .obj [("label", .str "inn")],
        .arr [.str "label", .str "road"]]
    let p := load records
    p.size = 5 ∧
      p.fetch 1 = .malformed "label" "invalid type: integer `5`, expected a string" ∧
      p.fetch 3 = .malformed "<missing>" "missing field `type`" ∧
      p.fetch 5 = .endOfProgram ∧
      Defines records "inn" 2 ∧ (∀ later, 2 < later → ¬ Defines records "inn" later) ∧
      p.resolve "inn" = some 2 ∧ p.resolve "road" = some 4 ∧
      (∀ position, ¬ Defines records "sea" position) ∧ p.labelCount = 2 := by
  intro records p
  obtain ⟨hsize, hfetch, hresolve, hnone, -⟩ := load_keeps_records records
  have hinn : p.resolve "inn" = some 2 := by decide +kernel
  have hsea : p.resolve "sea" = none := by decide +kernel
  obtain ⟨hdefined, hlast⟩ := (hresolve "inn" 2).1 hinn
  refine ⟨hsize, ?_, ?_, ?_, hdefined, hlast, hinn, ?_, (hnone "sea").1 hsea, ?_⟩
  · exact hfetch 1
  · exact hfetch 3
  · exact hfetch 5
  · decide +kernel
  · decide +kernel

end Program

end Parley
