/-
  Parley.Proofs.Json.Order

  The order of entries. An object may give its entries in any order: a record reads the same
  fields off them (`Fields.ofEntries_perm`).

  `Json.Reorders` says of a function on trees that it puts the entries of every object in some
  order and does nothing else, as leaving a tree alone does, and sorting it. What was written is
  read back off every reordered tree (`Fields.read_reordered`).
-/
import Mathlib.Data.List.Perm.Basic
import Parley.Proofs.Json.Decode

namespace Parley

namespace Decode

variable {α : Type} {read : Decoder α} {es es' : List (String × Json)}

theorem entries_cons_eq_ok {name : String} {j : Json} {l : List (String × α)} :
    entries read ((name, j) :: es) = .ok l ↔
      ∃ a rest, read j = .ok a ∧ entries read es = .ok rest ∧ l = (name, a) :: rest := by
  rw [entries]
  cases read j with
  | error e =>
      constructor
      · intro h
        cases h
      · rintro ⟨a, rest, h, -⟩
        cases h
  | ok a =>
      cases entries read es with
      | error e =>
          constructor
          · intro h
            cases h
          · rintro ⟨a, rest, -, h, -⟩
            cases h
      | ok rest =>
          constructor
          · intro h
            cases h
            exact ⟨a, rest, rfl, rfl, rfl⟩
          · rintro ⟨_, _, h, h', rfl⟩
            cases h
            cases h'
            rfl

/-- Entries that read in one order read in any other, to the same pairs. -/
theorem entries_perm (hperm : es.Perm es') {l : List (String × α)}
    (h : entries read es = .ok l) : ∃ l', entries read es' = .ok l' ∧ l.Perm l' := by
  induction hperm generalizing l with
  | nil => exact ⟨l, h, .refl l⟩
  | cons e hperm ih =>
      obtain ⟨a, rest, ha, hrest, rfl⟩ := entries_cons_eq_ok.1 h
      obtain ⟨rest', hrest', hperm'⟩ := ih hrest
      exact ⟨_, entries_cons_eq_ok.2 ⟨a, rest', ha, hrest', rfl⟩, hperm'.cons _⟩
  | swap e f es =>
      obtain ⟨a, _, ha, hfollowing, rfl⟩ := entries_cons_eq_ok.1 h
      obtain ⟨b, rest, hb, hrest, rfl⟩ := entries_cons_eq_ok.1 hfollowing
      have htail : entries read (f :: es) = .ok ((f.1, a) :: rest) :=
        entries_cons_eq_ok.2 ⟨a, rest, ha, hrest, rfl⟩
      exact ⟨_, entries_cons_eq_ok.2 ⟨b, _, hb, htail, rfl⟩, .swap _ _ _⟩
  | trans _ _ ih ih' =>
      obtain ⟨l₁, hfirst, hperm₁⟩ := ih h
      obtain ⟨l₂, hsecond, hperm₂⟩ := ih' hfirst
      exact ⟨l₂, hsecond, hperm₁.trans hperm₂⟩

end Decode

/-! ### Records -/

namespace Fields

variable {αs : List Type} {fs : Fields αs} {es es' : List (String × Json)}

theorem enter_cons_eq_ok {α : Type} {f : Field α} {name : String} {j : Json} {slot : Option α}
    {row : PartialRow αs} {out : PartialRow (α :: αs)} :
    (cons f fs).enter name j (slot, row) = .ok out ↔
      (f.accepts name = true ∧ slot = none ∧ ∃ a, f.read j = .ok a ∧ out = (some a, row)) ∨
        f.accepts name = false ∧ ∃ row', fs.enter name j row = .ok row' ∧ out = (slot, row') := by
  simp only [enter]
  cases f.accepts name with
  | true =>
      cases slot with
      | some b => simp
      | none => cases f.read j <;> simp [Except.map, eq_comm]
  | false => cases fs.enter name j row <;> simp [Except.map, eq_comm]

/-- Two entries that can be taken one after another can be taken in the other order: they give
    different fields, for a field that is given twice is an error. -/
theorem enter_swap {name name' : String} {j j' : Json} {row row₁ row₂ : PartialRow αs}
    (h : fs.enter name j row = .ok row₁) (h' : fs.enter name' j' row₁ = .ok row₂) :
    ∃ row₁', fs.enter name' j' row = .ok row₁' ∧ fs.enter name j row₁' = .ok row₂ := by
  induction fs with
  | nil => exact ⟨(), rfl, rfl⟩
  | cons f fs ih =>
      obtain ⟨slot, row⟩ := row
      -- Each of the two entries gives the first field or a later one.
      rcases enter_cons_eq_ok.1 h with ⟨hname, rfl, a, ha, rfl⟩ | ⟨hname, rest, hrest, rfl⟩ <;>
        rcases enter_cons_eq_ok.1 h' with
          ⟨hname', hslot, b, hb, rfl⟩ | ⟨hname', rest', hrest', rfl⟩
      · -- Both give it: the second is refused, since the slot is taken.
        cases hslot
      · exact ⟨(none, rest'), enter_cons_eq_ok.2 (.inr ⟨hname', rest', hrest', rfl⟩),
          enter_cons_eq_ok.2 (.inl ⟨hname, rfl, a, ha, rfl⟩)⟩
      · exact ⟨(some b, row), enter_cons_eq_ok.2 (.inl ⟨hname', hslot, b, hb, rfl⟩),
          enter_cons_eq_ok.2 (.inr ⟨hname, rest, hrest, rfl⟩)⟩
      · obtain ⟨between, hfirst, hsecond⟩ := ih hrest hrest'
        exact ⟨(slot, between), enter_cons_eq_ok.2 (.inr ⟨hname', between, hfirst, rfl⟩),
          enter_cons_eq_ok.2 (.inr ⟨hname, rest', hsecond, rfl⟩)⟩

theorem enterAll_cons_eq_ok {name : String} {j : Json} {row out : PartialRow αs} :
    fs.enterAll ((name, j) :: es) row = .ok out ↔
      ∃ row', fs.enter name j row = .ok row' ∧ fs.enterAll es row' = .ok out := by
  rw [enterAll]
  cases fs.enter name j row <;> simp

theorem enterAll_perm (hperm : es.Perm es') {row out : PartialRow αs}
    (h : fs.enterAll es row = .ok out) : fs.enterAll es' row = .ok out := by
  induction hperm generalizing row with
  | nil => exact h
  | cons e hperm ih =>
      obtain ⟨row', he, hrest⟩ := enterAll_cons_eq_ok.1 h
      exact enterAll_cons_eq_ok.2 ⟨row', he, ih hrest⟩
  | swap e f es =>
      obtain ⟨row₁, hf, hfollowing⟩ := enterAll_cons_eq_ok.1 h
      obtain ⟨row₂, he, hrest⟩ := enterAll_cons_eq_ok.1 hfollowing
      obtain ⟨row₁', he', hf'⟩ := enter_swap hf he
      exact enterAll_cons_eq_ok.2 ⟨row₁', he', enterAll_cons_eq_ok.2 ⟨row₂, hf', hrest⟩⟩
  | trans _ _ ih ih' => exact ih' (ih h)

/-- A record that reads off the entries of an object reads off them in any other order. -/
theorem ofEntries_perm (hperm : es.Perm es') {row : Row αs} (h : fs.ofEntries es = .ok row) :
    fs.ofEntries es' = .ok row := by
  rw [ofEntries] at h ⊢
  split at h
  · cases h
  · rename_i given hgiven
    rw [enterAll_perm hperm hgiven]
    exact h

/-! ### Entries of no field -/

/-- Whether some field takes an entry of this name. -/
def accepts : {αs : List Type} → Fields αs → String → Bool
  | _, .nil, _ => false
  | _, .cons f rest, name => f.accepts name || rest.accepts name

theorem enter_of_not_accepts {name : String} (h : fs.accepts name = false) (j : Json)
    (row : PartialRow αs) : fs.enter name j row = .ok row := by
  induction fs with
  | nil => rfl
  | cons f fs ih =>
      obtain ⟨slot, row⟩ := row
      obtain ⟨hf, hfs⟩ := Bool.or_eq_false_iff.1 h
      exact enter_cons_eq_ok.2 (.inr ⟨hf, row, ih hfs row, rfl⟩)

/-- An entry that no field takes is skipped. -/
theorem ofEntries_cons_of_not_accepts {name : String} (h : fs.accepts name = false) (j : Json) :
    fs.ofEntries ((name, j) :: es) = fs.ofEntries es := by
  rw [ofEntries, enterAll, enter_of_not_accepts h]
  rfl

theorem Writes.accepts {row : Row αs} (h : fs.Writes es row) :
    ∀ e ∈ es, fs.accepts e.1 = true := by
  induction h with
  | nil => simp
  | @cons _ _ f fs j es a row _ _ _ ih =>
      intro e he
      rcases List.mem_cons.1 he with rfl | he
      · simp [Fields.accepts, Field.accepts]
      · simp [Fields.accepts, ih e he]

/-- A record is written with every name once. -/
theorem Writes.nodup {row : Row αs} (h : fs.Writes es row) : (es.map (·.1)).Nodup := by
  induction h with
  | nil => exact List.nodup_nil
  | @cons _ _ f fs j es a row _ hother _ ih =>
      refine List.nodup_cons.2 ⟨?_, ih⟩
      intro hmem
      obtain ⟨e, he, hname⟩ := List.mem_map.1 hmem
      have haccepts := hother e he
      rw [hname] at haccepts
      simp [Field.accepts] at haccepts

end Fields

/-! ### Reordered trees -/

/-- The entries of an object with a function applied to their trees. -/
def Json.mapEntries (f : Json → Json) (es : List (String × Json)) : List (String × Json) :=
  es.map fun e => (e.1, f e.2)

namespace Json

@[simp] theorem mapEntries_nil (f : Json → Json) : mapEntries f [] = [] := rfl

@[simp] theorem mapEntries_cons (f : Json → Json) (name : String) (j : Json)
    (es : List (String × Json)) :
    mapEntries f ((name, j) :: es) = (name, f j) :: mapEntries f es := rfl

theorem names_mapEntries (f : Json → Json) (es : List (String × Json)) :
    (mapEntries f es).map (·.1) = es.map (·.1) := by
  rw [mapEntries, List.map_map]
  rfl

/-- A function on trees that puts the entries of every object in some order, and does nothing
    else. Only objects in which every name occurs once are spoken of. -/
structure Reorders (f : Json → Json) : Prop where
  null : f .null = .null
  bool (b : Bool) : f (.bool b) = .bool b
  num (n : Number) : f (.num n) = .num n
  str (s : String) : f (.str s) = .str s
  arr (items : List Json) : f (.arr items) = .arr (items.map f)
  obj {es : List (String × Json)} (hnodup : (es.map (·.1)).Nodup) :
    ∃ es', f (.obj es) = .obj es' ∧ (mapEntries f es).Perm es'

theorem reorders_id : Reorders id where
  null := rfl
  bool _ := rfl
  num _ := rfl
  str _ := rfl
  arr items := by rw [List.map_id]; rfl
  obj {es} _ := ⟨es, rfl, by rw [mapEntries]; simp⟩

theorem sortedItems_eq_map (items : List Json) : sortedItems items = items.map sorted := by
  induction items with
  | nil => rfl
  | cons j items ih => rw [sortedItems, ih, List.map_cons]

theorem sortedEntries_eq_foldl (es done : List (String × Json)) :
    sortedEntries es done =
      (mapEntries sorted es).foldl (fun done e => Table.put e.1 e.2 done) done := by
  induction es generalizing done with
  | nil => rfl
  | cons e es ih => rw [sortedEntries, ih]; rfl

/-- Sorting a tree reorders it. -/
theorem reorders_sorted : Reorders sorted where
  null := rfl
  bool _ := rfl
  num _ := rfl
  str _ := rfl
  arr items := by rw [sorted, sortedItems_eq_map]
  obj {es} hnodup := by
    rw [← names_mapEntries sorted] at hnodup
    have hperm := Table.foldl_put_perm [] hnodup (by simp)
    exact ⟨_, by rw [sorted, sortedEntries_eq_foldl], hperm.symm⟩

namespace Reorders

variable {f : Json → Json} (hf : Reorders f)

include hf

theorem single (name : String) (j : Json) : f (.obj [(name, j)]) = .obj [(name, f j)] := by
  have hnodup : ([(name, j)].map (·.1)).Nodup := List.nodup_singleton name
  obtain ⟨es', hobj, hperm⟩ := hf.obj hnodup
  rw [hobj, List.perm_singleton.1 hperm.symm]

theorem ofOption_str (s : Option String) :
    f (ofOption .str s) = ofOption .str s := by
  cases s with
  | none => exact hf.null
  | some s => exact hf.str s

theorem texts (l : List String) : f (.texts l) = .texts l := by
  rw [Json.texts, hf.arr, List.map_map]
  congr 1
  exact List.map_congr_left fun s _ => hf.str s

/-- A list reads back off the reordered trees of its items. -/
theorem list_read {α : Type} {read : Decoder α} {write : α → Json} {l : List α}
    (h : ∀ a ∈ l, read (f (write a)) = .ok a) :
    Decode.list read (f (.arr (l.map write))) = .ok l := by
  have hitems : Decode.items read (l.map fun a => f (write a)) = .ok (l.map id) :=
    Decode.items_map h
  rw [List.map_id] at hitems
  rw [hf.arr, List.map_map]
  exact hitems

/-- What stands under a name of an object is still found there. -/
theorem get?_obj {es : List (String × Json)} (hnodup : (es.map (·.1)).Nodup) (name : String) :
    (f (.obj es)).get? name = (Table.find name es).map f := by
  obtain ⟨es', hobj, hperm⟩ := hf.obj hnodup
  rw [← names_mapEntries f] at hnodup
  rw [hobj, get?, ← Table.find_perm hperm hnodup, mapEntries, Table.find_map]

end Reorders

end Json

/-- A record that was written reads back off every reordered tree. -/
theorem Fields.read_reordered {f : Json → Json} (hf : Json.Reorders f) {αs : List Type}
    {fs : Fields αs} {es : List (String × Json)} {row : Row αs}
    (h : fs.Writes (Json.mapEntries f es) row) (title : String) :
    fs.read title (f (.obj es)) = .ok row := by
  have hnodup := h.nodup
  rw [Json.names_mapEntries] at hnodup
  obtain ⟨es', hobj, hperm⟩ := hf.obj hnodup
  rw [hobj]
  exact ofEntries_perm hperm h.ofEntries

end Parley
