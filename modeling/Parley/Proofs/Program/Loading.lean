/-
  Parley.Proofs.Program.Loading

  Programs loaded from records. What the records of some actions are loaded as is the program
  of the actions that come back from them (`Program.load_records`). These are equal to the
  first ones and carry the same labels, so nothing that runs on a program can tell the two
  apart: they are of the same length, hold the same at every position, and resolve every label
  to the same position (`Program.load_agrees`).
-/
import Parley.Proofs.Action.Record
import Parley.Proofs.Program.Labels

namespace Parley

deriving instance BEq for Fetch

namespace Program

/-! ### Programs of actions -/

variable {actions : List Action}

theorem size_ofActions (actions : List Action) : (ofActions actions).size = actions.length := by
  rw [size, ofActions, ofSlots, List.size_toArray, List.length_map]

theorem fetch_ofActions (actions : List Action) (position : Nat) :
    (ofActions actions).fetch position =
      match actions[position]? with
      | some a => .action a
      | none => .endOfProgram := by
  rw [fetch, ofActions, ofSlots, List.getElem?_toArray, List.getElem?_map]
  cases actions[position]? <;> rfl

theorem mem_of_fetch_ofActions {position : Nat} {a : Action}
    (hslot : (ofActions actions).fetch position = .action a) : a ∈ actions := by
  rw [fetch_ofActions] at hslot
  split at hslot
  · rename_i hget
    cases hslot
    exact List.mem_of_getElem? hget
  · cases hslot

/-! ### The actions that come back -/

theorem fetch_plain (h : ∀ a ∈ actions, a.Writable) (position : Nat) :
    ((ofActions (actions.map Action.plain)).fetch position ==
      (ofActions actions).fetch position) = true := by
  rw [fetch_ofActions, fetch_ofActions, List.getElem?_map]
  cases hfetched : actions[position]? with
  | none => rfl
  | some a =>
      have hmem : a ∈ actions := List.mem_of_getElem? hfetched
      exact Action.plain_beq (h a hmem)

theorem resolve_plain (actions : List Action) (label : String) :
    (ofActions (actions.map Action.plain)).resolve label = (ofActions actions).resolve label := by
  apply resolve_congr
  intro position
  rw [fetch_ofActions, fetch_ofActions, List.getElem?_map]
  cases actions[position]? with
  | none => exact Iff.rfl
  | some a =>
      -- Reading back changes values only, and no label is one.
      simp only [Option.map_some, Fetch.action.injEq, ← Action.labelName?_eq_some_iff,
        a.labelName?_plain]

/-! ### Loaded programs -/

theorem load_records {f : Json → Json} (hf : Json.Reorders f) (h : ∀ a ∈ actions, a.Writable) :
    load (actions.map fun a => f a.toJson) = ofActions (actions.map Action.plain) := by
  have hslots : (actions.map fun a => f a.toJson).map Slot.ofRecord =
      (actions.map Action.plain).map Slot.action := by
    simp only [List.map_map]
    refine List.map_congr_left ?_
    intro a ha
    show Slot.ofRecord (f a.toJson) = .action a.plain
    rw [Slot.ofRecord, Action.read_reordered hf (h a ha)]
  rw [load, hslots, ofActions]

/-- Every action reads back off its record as an equal action, whatever the order of the entries,
    and a program is the same whether it is loaded from the records of some actions or built from
    the actions: of the same length, with an equal action at every position, and with the same
    position for every label. -/
theorem load_agrees {f : Json → Json} (hf : Json.Reorders f) :
    (∀ a : Action, a.Writable → ∃ back, Action.read (f a.toJson) = .ok back ∧ (back == a) = true) ∧
      ∀ actions : List Action, (∀ a ∈ actions, a.Writable) →
        let loaded := load (actions.map fun a => f a.toJson)
        let built := ofActions actions
        loaded.size = built.size ∧
          (∀ position, (loaded.fetch position == built.fetch position) = true) ∧
          ∀ label, loaded.resolve label = built.resolve label := by
  refine ⟨?_, ?_⟩
  · intro a h
    exact ⟨a.plain, Action.read_reordered hf h, Action.plain_beq h⟩
  · intro actions h
    have hloaded := load_records hf h
    refine ⟨?_, ?_, ?_⟩
    · rw [hloaded, size_ofActions, size_ofActions, List.length_map]
    · intro position
      rw [hloaded]
      exact fetch_plain h position
    · intro label
      rw [hloaded]
      exact resolve_plain actions label

/-- Records with sorted entries: of actions with a negative zero, 2^63, the greatest amount and
    the greatest position, absent texts next to a null value, lists of texts and of options, and
    a label that is defined twice. -/
theorem load_agrees_on_sorted_records :
    let actions : List Action :=
      [.note (some "create_local") none (.number (-0.0)), .label "a",
        .showSprite "mira" none (some "LEFT") (some { column := 0.1, row := -0.0 }),
        .showSprite "kai" (some "") none none, .removeSprite "kai", .line none (some "é\n\"") none,
        .modifyLocal ⟨"gold", .add, .number 9223372036854775808⟩,
        .modifyGlobal ⟨"met", .append, .list ["a", ""]⟩, .giveItem "coin" 4294967295,
        .whenLocal ⟨none, .night, .null, 18446744073709551615⟩,
        .whenGlobal ⟨some "x", .lessThan, .number 0.1, 0⟩, .transition "jump" (some "a"),
        .choice [⟨"a", ""⟩, ⟨"b", "Go"⟩], .nightChoice [], .command "/say hi", .label "a",
        .setBackground "inn", .clearBackground, .unlock ["x", "y"], .playSound "bell",
        .playMusic none, .checkpoint (some "a"), .idleChat, .finish, .checkInventory, .unknown]
    let loaded := load (actions.map fun a => a.toJson.sorted)
    Json.Reorders Json.sorted ∧ (∀ a ∈ actions, a.Writable) ∧ loaded.size = 26 ∧
      (∀ position, (loaded.fetch position == (ofActions actions).fetch position) = true) ∧
      loaded.resolve "a" = some 15 ∧ loaded.resolve "b" = none := by
  intro actions loaded
  have hwritable : ∀ a ∈ actions, a.Writable := by decide +kernel
  obtain ⟨-, hprograms⟩ := load_agrees Json.reorders_sorted
  obtain ⟨hsize, hfetch, hresolve⟩ := hprograms actions hwritable
  refine ⟨Json.reorders_sorted, hwritable, hsize, hfetch, ?_, ?_⟩
  · rw [hresolve]
    decide +kernel
  · rw [hresolve]
    decide +kernel

end Program

end Parley
