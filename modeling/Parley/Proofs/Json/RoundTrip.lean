/-
  Parley.Proofs.Json.RoundTrip

  Indented text reads back. If the text of every number stands for a number, the reader makes of
  the text of a tree that tree, with each number as its own text is read
  (`parse?_pretty_reread`). A tree whose numbers read back comes back as it was
  (`parse?_pretty`).

  The reader works off one token after another, so the statement that carries the proof is
  about a value in the middle of a text: whatever containers are open, after the text of the
  value the reader has put the value where it belongs (`spelled_prettyAt`). Its induction follows
  the writer.
-/
import Parley.Proofs.Json.Token

namespace Parley.Json

/-! ### Trees that read back -/

mutual

/-- Every number of the tree is as `p` says, and every literal stands for a value. -/
def Every (p : Number → Prop) : Json → Prop
  | .num n => p n
  | .arr items => EveryItem p items
  | .obj entries => EveryEntry p entries
  | .unreadable => False
  | _ => True

def EveryItem (p : Number → Prop) : List Json → Prop
  | [] => True
  | j :: rest => Every p j ∧ EveryItem p rest

def EveryEntry (p : Number → Prop) : List (String × Json) → Prop
  | [] => True
  | (_, j) :: rest => Every p j ∧ EveryEntry p rest

end

section

variable {p : Number → Prop}

theorem everyItem_iff {items : List Json} : EveryItem p items ↔ ∀ j ∈ items, j.Every p := by
  induction items with
  | nil => simp [EveryItem]
  | cons j items ih => simp [EveryItem, ih]

theorem everyEntry_iff {entries : List (String × Json)} :
    EveryEntry p entries ↔ ∀ e ∈ entries, e.2.Every p := by
  induction entries with
  | nil => simp [EveryEntry]
  | cons e entries ih => simp [EveryEntry, ih]

/-- There are no numbers in a list of texts. -/
theorem every_texts (l : List String) : (texts l).Every p := by
  refine everyItem_iff.2 fun j hj => ?_
  obtain ⟨s, -, rfl⟩ := List.mem_map.1 hj
  trivial

end

/-- Every number of the tree reads back. -/
abbrev Legible (j : Json) : Prop := j.Every Number.ReadsBack

mutual

/-- The tree with every number as its text is read. -/
def reread : Json → Json
  | .num n => .num n.reread
  | .arr items => .arr (rereadItems items)
  | .obj entries => .obj (rereadEntries entries)
  | j => j

def rereadItems : List Json → List Json
  | [] => []
  | j :: rest => reread j :: rereadItems rest

def rereadEntries : List (String × Json) → List (String × Json)
  | [] => []
  | (k, j) :: rest => (k, reread j) :: rereadEntries rest

end

theorem rereadEntries_eq (entries : List (String × Json)) :
    rereadEntries entries = entries.map fun e => (e.1, e.2.reread) := by
  induction entries with
  | nil => rfl
  | cons e entries ih => rw [rereadEntries, ih, List.map_cons]

mutual

/-- A tree whose numbers read back is the same with every number as its text is read. -/
theorem legible_reread : (j : Json) → j.Legible → j.Every Number.IsLiteral ∧ j.reread = j
  | .null, _ | .bool _, _ | .str _, _ => ⟨trivial, rfl⟩
  | .num n, h => ⟨h.isLiteral, by rw [reread, h.reread_eq]⟩
  | .arr items, h =>
      have hitems := legible_rereadItems items h
      ⟨hitems.1, by rw [reread, hitems.2]⟩
  | .obj entries, h =>
      have hentries := legible_rereadEntries entries h
      ⟨hentries.1, by rw [reread, hentries.2]⟩
  | .unreadable, h => h.elim

theorem legible_rereadItems : (items : List Json) → EveryItem Number.ReadsBack items →
    EveryItem Number.IsLiteral items ∧ rereadItems items = items
  | [], _ => ⟨trivial, rfl⟩
  | j :: items, h =>
      have hj := legible_reread j h.1
      have hitems := legible_rereadItems items h.2
      ⟨⟨hj.1, hitems.1⟩, by rw [rereadItems, hj.2, hitems.2]⟩

theorem legible_rereadEntries : (entries : List (String × Json)) →
    EveryEntry Number.ReadsBack entries →
      EveryEntry Number.IsLiteral entries ∧ rereadEntries entries = entries
  | [], _ => ⟨trivial, rfl⟩
  | (k, j) :: entries, h =>
      have hj := legible_reread j h.1
      have hentries := legible_rereadEntries entries h.2
      ⟨⟨hj.1, hentries.1⟩, by rw [rereadEntries, hj.2, hentries.2]⟩

end

/-! ### Runs of the reader -/

/-- The text takes the reader to the end of the document, which is `j`. -/
def Reader.Reads (r : Reader) (cs : List Char) (j : Json) : Prop :=
  ∀ fuel, cs.length < fuel → r.run fuel cs = some (.finished j)

namespace Reader

theorem reads_nil (j : Json) : Reads (.finished j) [] j := by
  intro fuel hfuel
  obtain ⟨fuel, rfl⟩ : ∃ n, fuel = n + 1 := ⟨fuel - 1, by omega⟩
  rfl

/-- Space is skipped. -/
theorem reads_space {r : Reader} {c : Char} {cs : List Char} {j : Json}
    (hc : Token.isSpace c = true) (h : r.Reads cs j) : r.Reads (c :: cs) j := by
  intro fuel hfuel
  rw [List.length_cons] at hfuel
  obtain ⟨fuel, rfl⟩ : ∃ n, fuel = n + 1 := ⟨fuel - 1, by omega⟩
  have hrest := h (fuel + 1) (by omega)
  rw [run] at hrest ⊢
  rw [List.dropWhile_cons, if_pos hc]
  exact hrest

theorem reads_newline {r : Reader} {cs : List Char} {j : Json} (level : Nat) (h : r.Reads cs j) :
    r.Reads ((newline level).toList ++ cs) j := by
  have hblanks : ∀ n, r.Reads (List.replicate n ' ' ++ cs) j := by
    intro n
    induction n with
    | zero => exact h
    | succ n ih => exact reads_space rfl ih
  have htext : (newline level).toList ++ cs = '\n' :: (List.replicate (2 * level) ' ' ++ cs) := by
    simp [newline]
  rw [htext]
  exact reads_space rfl (hblanks (2 * level))

/-- One token, and then the rest of the text. -/
theorem reads_token {r r' : Reader} {t : Token} {w rest : List Char} {j : Json}
    (hspells : Token.Spells w t rest) (hfeed : r.feed t = some r') (h : r'.Reads rest j) :
    r.Reads (w ++ rest) j := by
  obtain ⟨⟨c, cs, rfl, hspace⟩, hscan⟩ := hspells
  intro fuel hfuel
  rw [List.length_append, List.length_cons] at hfuel
  obtain ⟨fuel, rfl⟩ : ∃ n, fuel = n + 1 := ⟨fuel - 1, by omega⟩
  have hrest := h fuel (by omega)
  rw [List.cons_append] at hscan ⊢
  rw [run, List.dropWhile_cons, hspace]
  simp only [Bool.false_eq_true, if_false, hscan, hfeed, hrest]

theorem feed_firstItem {stack : List Frame} {t : Token} {r : Reader}
    (h : value stack t = some r) : feed t (.reading stack .firstItem) = some r := by
  cases t with
  | closeArray => cases h
  | _ => exact h

/-- Where the first item of an array may stand, any value may. -/
theorem reads_firstItem {stack : List Frame} {cs : List Char} {j : Json}
    (h : Reads (.reading stack .value) cs j) : Reads (.reading stack .firstItem) cs j := by
  intro fuel hfuel
  have hrun := h fuel hfuel
  obtain ⟨fuel, rfl⟩ : ∃ n, fuel = n + 1 := ⟨fuel - 1, by omega⟩
  rw [run] at hrun ⊢
  split at hrun
  · cases hrun
  · split at hrun
    · cases hrun
    · split at hrun
      · cases hrun
      · rename_i r hfeed
        rw [feed_firstItem hfeed]
        exact hrun

end Reader

/-! ### Values -/

open Reader (complete value reads_token reads_space reads_newline reads_firstItem)
open Token (Ends Spells ends_cons spells_marks spells_num spells_str)

theorem ends_newline (level : Nat) (cs : List Char) : Ends ((newline level).toList ++ cs) := by
  have htext : (newline level).toList ++ cs = '\n' :: (List.replicate (2 * level) ' ' ++ cs) := by
    simp [newline]
  rw [htext]
  exact ends_cons (by decide) (by decide) _

/-- The text of `j`, in front of what cannot extend it, takes any reader that wants a value to
    where `j` is complete. -/
def Spelled (w : List Char) (j : Json) : Prop :=
  ∀ ⦃stack : List Frame⦄ ⦃r : Reader⦄ ⦃rest : List Char⦄ ⦃document : Json⦄,
    complete j stack = some r → Ends rest → r.Reads rest document →
      Reader.Reads (.reading stack .value) (w ++ rest) document

theorem spelled_scalar {w : List Char} {t : Token} {j : Json}
    (hspells : ∀ {rest}, Ends rest → Spells w t rest)
    (hvalue : ∀ stack, value stack t = complete j stack) : Spelled w j := by
  intro stack r rest document hr hrest h
  exact reads_token (hspells hrest) ((hvalue stack).trans hr) h

theorem spelled_null : Spelled "null".toList .null :=
  spelled_scalar (fun _ => (spells_marks _).null) fun _ => rfl

theorem spelled_bool (b : Bool) : Spelled (scalarText (.bool b)).toList (.bool b) := by
  cases b with
  | true => exact spelled_scalar (fun _ => (spells_marks _).yes) fun _ => rfl
  | false => exact spelled_scalar (fun _ => (spells_marks _).no) fun _ => rfl

theorem spelled_num {n : Number} (h : n.IsLiteral) : Spelled n.text.toList (.num n.reread) :=
  spelled_scalar (spells_num h) fun _ => rfl

theorem spelled_str (s : String) : Spelled (stringText s).toList (.str s) :=
  spelled_scalar (fun _ => spells_str s _) fun _ => rfl

/-- What follows an item begins with a comma or a new line. -/
theorem ends_prettyItems (level closing : Nat) (js : List Json) (rest : List Char) :
    Ends ((prettyItems level js).toList ++ ((newline closing).toList ++ rest)) := by
  cases js with
  | nil => exact ends_newline closing rest
  | cons j js =>
      simp only [prettyItems, String.toList_append, List.append_assoc]
      exact ends_cons (by decide) (by decide) _

theorem ends_prettyEntries (level closing : Nat) (es : List (String × Json)) (rest : List Char) :
    Ends ((prettyEntries level es).toList ++ ((newline closing).toList ++ rest)) := by
  cases es with
  | nil => exact ends_newline closing rest
  | cons e es =>
      simp only [prettyEntries, String.toList_append, List.append_assoc]
      exact ends_cons (by decide) (by decide) _

/-- Entries as an open object holds them: latest first, every name a text. -/
def held (entries : List (String × Json)) : List (Option String × Json) :=
  (entries.map fun e => (some e.1, e.2)).reverse

theorem held_concat (entries : List (String × Json)) (k : String) (j : Json) :
    held (entries ++ [(k, j)]) = (some k, j) :: held entries := by
  simp [held]

theorem closeObject_held (entries : List (String × Json)) :
    Reader.closeObject (held entries) = .obj entries := by
  have hnamed : (entries.map fun e => (some e.1, e.2)).mapM
      (fun e : Option String × Json => e.1.map (·, e.2)) = some entries := by
    induction entries with
    | nil => rfl
    | cons e entries ih =>
        rw [List.map_cons, List.mapM_cons, ih]
        rfl
  rw [Reader.closeObject, held, List.reverse_reverse]
  split
  · rename_i named hsome
    obtain rfl : named = entries := Option.some.inj (hsome.symm.trans hnamed)
    rfl
  · rename_i hnone
    cases hnone.symm.trans hnamed

/-- An entry whose name has been read. -/
theorem reads_member {w rest : List Char} {j document : Json} {k : String} {stack : List Frame}
    (entries : List (String × Json)) (hw : Spelled w j) (hrest : Ends rest)
    (h : Reader.Reads (.reading (.object (held (entries ++ [(k, j)])) :: stack) .next) rest
      document) :
    Reader.Reads (.reading (.member (some k) :: .object (held entries) :: stack) .colon)
      (": ".toList ++ (w ++ rest)) document := by
  have hcolon : Spells ":".toList .colon (" ".toList ++ (w ++ rest)) := (spells_marks _).colon
  rw [held_concat] at h
  show Reader.Reads _ (":".toList ++ (" ".toList ++ (w ++ rest))) document
  exact reads_token hcolon rfl (reads_space rfl (hw rfl hrest h))

-- The recursion is the writer's: a container is opened, its first member goes into it, and the
-- rest is told by what the container holds so far (`items`, `entries`) and what is yet to come.

mutual

theorem spelled_prettyAt (level : Nat) :
    (j : Json) → j.Every Number.IsLiteral → Spelled (prettyAt level j).toList j.reread
  | .null, _ => spelled_null
  | .bool b, _ => spelled_bool b
  | .num n, h => spelled_num h
  | .str s, _ => spelled_str s
  | .unreadable, h => h.elim
  | .arr [], _ => by
      intro stack r rest document hr hrest hreads
      have hopen : Spells "[".toList .openArray ("]".toList ++ rest) := (spells_marks _).openArray
      have hclose : Spells "]".toList .closeArray rest := (spells_marks _).closeArray
      rw [prettyAt]
      show Reader.Reads _ ("[".toList ++ ("]".toList ++ rest)) document
      exact reads_token hopen rfl (reads_token hclose hr hreads)
  | .arr (j :: js), h => by
      intro stack r rest document hr hrest hreads
      simp only [prettyAt, String.toList_append, List.append_assoc]
      refine reads_token (spells_marks _).openArray rfl (reads_firstItem (reads_newline _ ?_))
      refine spelled_prettyAt (level + 1) j h.1 rfl (ends_prettyItems _ _ _ _) ?_
      exact reads_prettyItems (level + 1) level [j.reread] js h.2 hr hreads
  | .obj [], _ => by
      intro stack r rest document hr hrest hreads
      have hopen : Spells "\x7b".toList .openObject ("\x7d".toList ++ rest) :=
        (spells_marks _).openObject
      have hclose : Spells "\x7d".toList .closeObject rest := (spells_marks _).closeObject
      rw [prettyAt]
      show Reader.Reads _ ("\x7b".toList ++ ("\x7d".toList ++ rest)) document
      exact reads_token hopen rfl (reads_token hclose hr hreads)
  | .obj ((k, j) :: es), h => by
      intro stack r rest document hr hrest hreads
      simp only [prettyAt, String.toList_append, List.append_assoc]
      refine reads_token (spells_marks _).openObject rfl (reads_newline _ ?_)
      refine reads_token (spells_str k _) rfl ?_
      refine reads_member [] (spelled_prettyAt (level + 1) j h.1)
        (ends_prettyEntries _ _ _ _) ?_
      exact reads_prettyEntries (level + 1) level [(k, j.reread)] es h.2 hr hreads

theorem reads_prettyItems (level closing : Nat) {stack : List Frame} {r : Reader}
    {rest : List Char} {document : Json} (items : List Json) :
    (js : List Json) → EveryItem Number.IsLiteral js →
      complete (.arr (items ++ rereadItems js)) stack = some r → r.Reads rest document →
      Reader.Reads (.reading (.array items.reverse :: stack) .next)
        ((prettyItems level js).toList ++ ((newline closing).toList ++ ("]".toList ++ rest)))
        document
  | [], _, hr, h => by
      have hclose :
          Reader.feed .closeArray (.reading (.array items.reverse :: stack) .next) = some r := by
        rw [← hr, rereadItems, List.append_nil, Reader.feed, List.reverse_reverse]
      exact reads_newline closing (reads_token (spells_marks _).closeArray hclose h)
  | j :: js, hevery, hr, h => by
      simp only [prettyItems, String.toList_append, List.append_assoc]
      refine reads_token (spells_marks _).comma rfl (reads_newline level ?_)
      refine spelled_prettyAt level j hevery.1 rfl (ends_prettyItems _ _ _ _) ?_
      have hitems := reads_prettyItems level closing (items ++ [j.reread]) js hevery.2
        (by rw [List.append_assoc]; exact hr) h
      rwa [List.reverse_concat] at hitems

theorem reads_prettyEntries (level closing : Nat) {stack : List Frame} {r : Reader}
    {rest : List Char} {document : Json} (entries : List (String × Json)) :
    (es : List (String × Json)) → EveryEntry Number.IsLiteral es →
      complete (.obj (entries ++ rereadEntries es)) stack = some r → r.Reads rest document →
      Reader.Reads (.reading (.object (held entries) :: stack) .next)
        ((prettyEntries level es).toList ++ ((newline closing).toList ++ ("\x7d".toList ++ rest)))
        document
  | [], _, hr, h => by
      have hclose :
          Reader.feed .closeObject (.reading (.object (held entries) :: stack) .next) = some r := by
        rw [← hr, rereadEntries, List.append_nil, Reader.feed, closeObject_held]
      exact reads_newline closing (reads_token (spells_marks _).closeObject hclose h)
  | (k, j) :: es, hevery, hr, h => by
      simp only [prettyEntries, String.toList_append, List.append_assoc]
      refine reads_token (spells_marks _).comma rfl (reads_newline level ?_)
      refine reads_token (spells_str k _) rfl ?_
      refine reads_member entries (spelled_prettyAt level j hevery.1)
        (ends_prettyEntries _ _ _ _) ?_
      exact reads_prettyEntries level closing (entries ++ [(k, j.reread)]) es hevery.2
        (by rw [List.append_assoc]; exact hr) h

end

/-- Indented text is read as the tree, with every number as its own text is read. -/
theorem parse?_pretty_reread {j : Json} (h : j.Every Number.IsLiteral) :
    parse? j.pretty = some j.reread := by
  have hreads : Reader.Reads (.reading [] .value) ((prettyAt 0 j).toList ++ []) j.reread :=
    spelled_prettyAt 0 j h rfl Token.ends_nil (Reader.reads_nil j.reread)
  rw [List.append_nil] at hreads
  rw [parse?, pretty]
  simp only [hreads _ (Nat.lt_succ_self _)]

/-- Indented text reads back if every number does. -/
theorem parse?_pretty {j : Json} (h : j.Legible) : parse? j.pretty = some j := by
  obtain ⟨hevery, hsame⟩ := legible_reread j h
  rw [parse?_pretty_reread hevery, hsame]

end Parley.Json
