/-
  Parley.Proofs.Json.Decode

  Typed values read back off the trees they are written as, given that their parts do: the
  items of a list, the entries of a table, and the fields of a record that is written as an
  object with its fields in declared order (`Fields.Writes`).
-/
import Parley.Json.Record
import Parley.Proofs.Table

namespace Parley

/-! ### Numbers and optional values -/

namespace Decode

theorem natBelow_nat {bound n : Nat} (h : n < bound) (type : String) :
    natBelow bound type (.nat n) = .ok n := by
  have hrange : 0 ≤ (n : Int) ∧ (n : Int) < (bound : Nat) := by omega
  rw [natBelow, if_pos hrange, Int.toNat_natCast]

theorem position_nat {n : Nat} (h : n < Nat.pow 2 64) : position (.nat n) = .ok n :=
  natBelow_nat h "usize"

theorem option_text (s : Option String) : option text (Json.ofOption .str s) = .ok s := by
  cases s <;> rfl

/-- A value that is not written as `null` reads back as an optional one. -/
theorem option_of_read {α : Type} {read : Decoder α} {j : Json} {a : α} (h : read j = .ok a)
    (hnull : read .null ≠ .ok a) : option read j = .ok (some a) := by
  have hsome : (read j).map some = .ok (some a) := by rw [h]; rfl
  cases j with
  | null => exact absurd h hnull
  | bool _ | num _ | str _ | arr _ | obj _ | unreadable => exact hsome

end Decode

/-! ### Lists and tables -/

namespace Decode

variable {α β : Type} {read : Decoder β} {write : α → Json} {back : α → β}

theorem items_map {l : List α} (h : ∀ a ∈ l, read (write a) = .ok (back a)) :
    items read (l.map write) = .ok (l.map back) := by
  induction l with
  | nil => rfl
  | cons a l ih =>
      have ha := h a List.mem_cons_self
      have hl := ih fun b hb => h b (List.mem_cons_of_mem a hb)
      rw [List.map_cons, items, ha, hl]
      rfl

theorem texts_texts (l : List String) : texts (.texts l) = .ok l := by
  have hitems : items text (l.map .str) = .ok (l.map id) := items_map fun s _ => rfl
  rwa [List.map_id] at hitems

theorem entries_map {l : List (String × α)} (h : ∀ e ∈ l, read (write e.2) = .ok (back e.2)) :
    entries read (l.map fun e => (e.1, write e.2)) = .ok (l.map fun e => (e.1, back e.2)) := by
  induction l with
  | nil => rfl
  | cons e l ih =>
      have he := h e List.mem_cons_self
      have hl := ih fun b hb => h b (List.mem_cons_of_mem e hb)
      rw [List.map_cons, entries, he, hl]
      rfl

end Decode

/-! ### Records -/

namespace Fields

/-- The entries give every field once, in declared order, and read as the values of the row. -/
inductive Writes : {αs : List Type} → Fields αs → List (String × Json) → Row αs → Prop
  | nil : Writes .nil [] ()
  | cons {α : Type} {αs : List Type} {f : Field α} {fs : Fields αs} {j : Json}
      {es : List (String × Json)} {a : α} {row : Row αs} (hread : f.read j = .ok a)
      (hother : ∀ e ∈ es, f.accepts e.1 = false) (hrest : Writes fs es row) :
      Writes (.cons f fs) ((f.name, j) :: es) (a, row)

section

variable {α : Type} {αs : List Type} {name : String} {read : Decoder α} {fs : Fields αs} {j : Json}
  {es : List (String × Json)} {a : α} {row : Row αs}

theorem Writes.required (hread : read j = .ok a) (hother : ∀ e ∈ es, e.1 ≠ name)
    (hrest : fs.Writes es row) :
    (Fields.cons (.required name read) fs).Writes ((name, j) :: es) (a, row) :=
  .cons hread (fun e he => by simp [Field.accepts, Field.required, hother e he]) hrest

theorem Writes.withDefault {default : α} (hread : read j = .ok a) (hother : ∀ e ∈ es, e.1 ≠ name)
    (hrest : fs.Writes es row) :
    (Fields.cons (.withDefault name read default) fs).Writes ((name, j) :: es) (a, row) :=
  .cons hread (fun e he => by simp [Field.accepts, Field.withDefault, hother e he]) hrest

theorem Writes.optional {s : Option α} (hread : Decode.option read j = .ok s)
    (hother : ∀ e ∈ es, e.1 ≠ name) (hrest : fs.Writes es row) :
    (Fields.cons (.optional name read) fs).Writes ((name, j) :: es) (s, row) :=
  .cons hread (fun e he => by simp [Field.accepts, Field.optional, hother e he]) hrest

end

/-- A field keeps what it has while others are entered. -/
theorem enterAll_cons {α : Type} {αs : List Type} {f : Field α} {fs : Fields αs}
    {es : List (String × Json)} (hother : ∀ e ∈ es, f.accepts e.1 = false) (slot : Option α)
    (row : PartialRow αs) :
    (Fields.cons f fs).enterAll es (slot, row) =
      (fs.enterAll es row).map fun row => (slot, row) := by
  induction es generalizing row with
  | nil => rfl
  | cons e es ih =>
      obtain ⟨name, j⟩ := e
      have hname : f.accepts name = false := hother (name, j) List.mem_cons_self
      have hrest := ih fun e he => hother e (List.mem_cons_of_mem _ he)
      simp only [enterAll, enter, hname]
      cases fs.enter name j row with
      | error e => rfl
      | ok row => exact hrest row

theorem Writes.settles {αs : List Type} {fs : Fields αs} {es : List (String × Json)} {row : Row αs}
    (h : fs.Writes es row) :
    ∃ given, fs.enterAll es fs.blank = .ok given ∧ fs.settle given = .ok row := by
  induction h with
  | nil => exact ⟨(), rfl, rfl⟩
  | @cons α αs f fs j es a row hread hother hrest ih =>
      obtain ⟨given, henter, hsettle⟩ := ih
      refine ⟨(some a, given), ?_, ?_⟩
      · have hfirst : f.accepts f.name = true := by simp [Field.accepts]
        simp only [enterAll, enter, blank, hfirst, if_true, hread, Except.map]
        rw [enterAll_cons hother, henter]
        rfl
      · simp only [settle, hsettle]
        rfl

theorem Writes.ofEntries {αs : List Type} {fs : Fields αs} {es : List (String × Json)}
    {row : Row αs} (h : fs.Writes es row) : fs.ofEntries es = .ok row := by
  obtain ⟨given, henter, hsettle⟩ := h.settles
  simp only [Fields.ofEntries, henter, hsettle]

/-- A record that was written in declared order reads back. -/
theorem read_obj {αs : List Type} {fs : Fields αs} {es : List (String × Json)} {row : Row αs}
    (h : fs.Writes es row) (title : String) : fs.read title (.obj es) = .ok row :=
  h.ofEntries

end Fields

end Parley
