/-
  Parley.Proofs.Text.Blank

  White space at the ends of a text. A text holds characters if there is nothing but white space
  around them (`Holds`). Of the characters with no white space at their own ends it holds at most
  one list, and trimming finds it (`trim_eq_iff`).
-/
import Mathlib.Data.List.TakeWhile
import Parley.Text.Blank

namespace Parley.Text

theorem dropBlank_append {blanks : List Char} (h : ∀ c ∈ blanks, isBlank c = true)
    (cs : List Char) : dropBlank (blanks ++ cs) = dropBlank cs :=
  List.dropWhile_append_of_pos h

theorem head?_dropBlank {cs : List Char} {c : Char} (h : (dropBlank cs).head? = some c) :
    isBlank c = false := by
  have hstop := List.head?_dropWhile_not isBlank cs
  rw [dropBlank] at h
  rw [h] at hstop
  simpa using hstop

theorem dropBlank_of_head {c : Char} {cs : List Char} (h : isBlank c = false) :
    dropBlank (c :: cs) = c :: cs := by
  rw [dropBlank, List.dropWhile_cons_of_neg (by simp [h])]

/-- What is dropped is white space. -/
theorem blank_append_dropBlank (cs : List Char) :
    ∃ blanks : List Char, (∀ c ∈ blanks, isBlank c = true) ∧ cs = blanks ++ dropBlank cs :=
  ⟨cs.takeWhile isBlank, fun _ hc => List.mem_takeWhile_imp hc,
    List.takeWhile_append_dropWhile.symm⟩

/-! ### Both ends -/

/-- The text is the characters with white space around them, or with none. -/
def Holds (text : String) (cs : List Char) : Prop :=
  ∃ before after : List Char, (∀ c ∈ before, isBlank c = true) ∧
    (∀ c ∈ after, isBlank c = true) ∧ text.toList = before ++ (cs ++ after)

/-- There are characters, and neither the first nor the last is white space. -/
def Bare (cs : List Char) : Prop :=
  (∃ c ∈ cs.head?, isBlank c = false) ∧ ∃ c ∈ cs.getLast?, isBlank c = false

theorem Bare.ne_nil {cs : List Char} (h : Bare cs) : cs ≠ [] := by
  rintro rfl
  obtain ⟨⟨c, hc, -⟩, -⟩ := h
  cases hc

theorem Bare.reverse {cs : List Char} (h : Bare cs) : Bare cs.reverse := by
  rw [Bare, List.head?_reverse, List.getLast?_reverse]
  exact h.symm

theorem dropBlank_of_bare {cs : List Char} (h : Bare cs) (rest : List Char) :
    dropBlank (cs ++ rest) = cs ++ rest := by
  obtain ⟨⟨c, hc, hblank⟩, -⟩ := h
  cases cs with
  | nil => cases hc
  | cons d cs =>
      obtain rfl : d = c := Option.some.inj hc
      exact dropBlank_of_head hblank

theorem holds_trim (text : String) : Holds text (trim text).toList := by
  obtain ⟨before, hbefore, hfront⟩ := blank_append_dropBlank text.toList
  obtain ⟨after, hafter, hback⟩ := blank_append_dropBlank (dropBlank text.toList).reverse
  refine ⟨before, after.reverse, hbefore, fun c hc => hafter c (List.mem_reverse.1 hc), ?_⟩
  have hrest : dropBlank text.toList = (trim text).toList ++ after.reverse := by
    rw [trim, String.toList_ofList, ← List.reverse_append, ← hback, List.reverse_reverse]
  rw [← hrest]
  exact hfront

theorem trim_eq_of_holds {text : String} {cs : List Char} (hbare : Bare cs)
    (h : Holds text cs) : (trim text).toList = cs := by
  obtain ⟨before, after, hbefore, hafter, htext⟩ := h
  have hback : ∀ c ∈ after.reverse, isBlank c = true := fun c hc => hafter c (List.mem_reverse.1 hc)
  -- First the white space in front goes, then, from the back, that behind.
  have hlast : dropBlank cs.reverse = cs.reverse := by
    simpa using dropBlank_of_bare hbare.reverse []
  rw [trim, String.toList_ofList, htext, dropBlank_append hbefore, dropBlank_of_bare hbare,
    List.reverse_append, dropBlank_append hback, hlast, List.reverse_reverse]

theorem trim_eq_iff {text : String} {cs : List Char} (hbare : Bare cs) :
    (trim text).toList = cs ↔ Holds text cs := by
  refine ⟨?_, trim_eq_of_holds hbare⟩
  rintro rfl
  exact holds_trim text

end Parley.Text
