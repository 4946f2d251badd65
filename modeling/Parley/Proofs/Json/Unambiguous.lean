/-
  Parley.Proofs.Json.Unambiguous

  A tree can be told from its text (`compact_inj`, `prettyAt_inj`). On one line and indented a tree
  is laid out alike but for the blanks between its tokens (`Spacing`), so both follow from what
  holds of every layout: if the texts of two trees begin a text in the same place, in front of what
  cannot extend them, the trees are the same and so is what follows (`laid_inj`). The first tokens
  tell what kind of tree each one is, and from there the induction is the writer's.
-/
import Parley.Proofs.Json.Literal
import Parley.Proofs.Json.RoundTrip

namespace Parley.Json

/-! ### Layouts -/

/-- What a text has between its tokens. -/
structure Spacing where
  /-- The blanks in front of a member or a closing bracket, by its level. -/
  gap : Nat → List Char
  /-- What stands behind a name. -/
  colon : List Char
  blank : ∀ level, ∀ c ∈ gap level, Token.isSpace c = true

namespace Spacing

/-- Everything on one line. -/
def line : Spacing where
  gap _ := []
  colon := [':']
  blank _ := nofun

/-- One member a line. -/
def indented : Spacing where
  gap level := (newline level).toList
  colon := [':', ' ']
  blank level := by
    intro c hc
    have htext : (newline level).toList = '\n' :: List.replicate (2 * level) ' ' := by
      simp [newline]
    rw [htext] at hc
    rcases List.mem_cons.1 hc with rfl | hc
    · rfl
    · rw [List.eq_of_mem_replicate hc]
      rfl

variable (l : Spacing)

/-- A mark behind blanks is the first that is no blank. -/
theorem head_of_gap {level : Nat} {c : Char} {cs rest : List Char} (hc : Token.isSpace c = false)
    (h : l.gap level ++ rest = c :: cs) : rest = c :: cs := by
  cases hgap : l.gap level with
  | nil =>
      rw [hgap] at h
      exact h
  | cons d ds =>
      rw [hgap] at h
      obtain ⟨rfl, -⟩ := List.cons.inj h
      rw [l.blank level d (hgap ▸ List.mem_cons_self)] at hc
      cases hc

end Spacing

mutual

/-- The text of a tree in front of a text. -/
def laid (l : Spacing) (level : Nat) : Json → List Char → List Char
  | .arr [], rest => '[' :: ']' :: rest
  | .arr (j :: js), rest =>
    '[' :: (l.gap (level + 1) ++
      laid l (level + 1) j (laidItems l (level + 1) js (l.gap level ++ ']' :: rest)))
  | .obj [], rest => '\x7b' :: '\x7d' :: rest
  | .obj ((k, j) :: es), rest =>
    '\x7b' :: (l.gap (level + 1) ++ ((stringText k).toList ++ (l.colon ++
      laid l (level + 1) j (laidEntries l (level + 1) es (l.gap level ++ '\x7d' :: rest)))))
  | j, rest => (scalarText j).toList ++ rest

def laidItems (l : Spacing) (level : Nat) : List Json → List Char → List Char
  | [], rest => rest
  | j :: js, rest => ',' :: (l.gap level ++ laid l level j (laidItems l level js rest))

def laidEntries (l : Spacing) (level : Nat) : List (String × Json) → List Char → List Char
  | [], rest => rest
  | (k, j) :: es, rest =>
    ',' :: (l.gap level ++ ((stringText k).toList ++ (l.colon ++
      laid l level j (laidEntries l level es rest))))

end

mutual

theorem compact_append (level : Nat) : (j : Json) → (rest : List Char) →
    (compact j).toList ++ rest = laid .line level j rest
  | .null, _ | .bool _, _ | .num _, _ | .str _, _ | .unreadable, _ | .arr [], _ | .obj [], _ => rfl
  | .arr (j :: js), rest => by
      simp only [compact, laid, String.toList_append, List.append_assoc]
      rw [compact_append (level + 1) j, compactItems_append (level + 1) js]
      rfl
  | .obj ((k, j) :: es), rest => by
      simp only [compact, laid, String.toList_append, List.append_assoc]
      rw [compact_append (level + 1) j, compactEntries_append (level + 1) es]
      rfl

theorem compactItems_append (level : Nat) : (js : List Json) → (rest : List Char) →
    (compactItems js).toList ++ rest = laidItems .line level js rest
  | [], _ => rfl
  | j :: js, rest => by
      simp only [compactItems, laidItems, String.toList_append, List.append_assoc]
      rw [compact_append level j, compactItems_append level js]
      rfl

theorem compactEntries_append (level : Nat) : (es : List (String × Json)) →
    (rest : List Char) → (compactEntries es).toList ++ rest = laidEntries .line level es rest
  | [], _ => rfl
  | (k, j) :: es, rest => by
      simp only [compactEntries, laidEntries, String.toList_append, List.append_assoc]
      rw [compact_append level j, compactEntries_append level es]
      rfl

end

mutual

theorem prettyAt_append (level : Nat) : (j : Json) → (rest : List Char) →
    (prettyAt level j).toList ++ rest = laid .indented level j rest
  | .null, _ | .bool _, _ | .num _, _ | .str _, _ | .unreadable, _ => rfl
  | .arr [], _ | .obj [], _ => by
      rw [prettyAt]
      rfl
  | .arr (j :: js), rest => by
      simp only [prettyAt, laid, String.toList_append, List.append_assoc]
      rw [prettyAt_append (level + 1) j, prettyItems_append (level + 1) js]
      rfl
  | .obj ((k, j) :: es), rest => by
      simp only [prettyAt, laid, String.toList_append, List.append_assoc]
      rw [prettyAt_append (level + 1) j, prettyEntries_append (level + 1) es]
      rfl

theorem prettyItems_append (level : Nat) : (js : List Json) → (rest : List Char) →
    (prettyItems level js).toList ++ rest = laidItems .indented level js rest
  | [], _ => rfl
  | j :: js, rest => by
      simp only [prettyItems, laidItems, String.toList_append, List.append_assoc]
      rw [prettyAt_append level j, prettyItems_append level js]
      rfl

theorem prettyEntries_append (level : Nat) : (es : List (String × Json)) →
    (rest : List Char) →
    (prettyEntries level es).toList ++ rest = laidEntries .indented level es rest
  | [], _ => rfl
  | (k, j) :: es, rest => by
      simp only [prettyEntries, laidEntries, String.toList_append, List.append_assoc]
      rw [prettyAt_append level j, prettyEntries_append level es]
      rfl

end

/-! ### First tokens -/

open Token (Ends scan spells_marks spells_num spells_str ends_cons)

/-- The token that the text of a tree begins with. -/
def opening : Json → Token
  | .bool b => .bool b
  | .num n => .num (some n.reread)
  | .str s => .str (some s)
  | .arr _ => .openArray
  | .obj _ => .openObject
  | _ => .null

/-- Whether the tree is no container. -/
def isScalar : Json → Bool
  | .arr _ => false
  | .obj _ => false
  | _ => true

variable {l : Spacing} {level : Nat} {j j' : Json} {rest rest' : List Char}

theorem laid_of_isScalar (h : j.isScalar = true) :
    laid l level j rest = (scalarText j).toList ++ rest := by
  cases j with
  | arr | obj => cases h
  | _ => rfl

/-- A scalar is one token. -/
theorem scan_of_isScalar (l : Spacing) (level : Nat) (hscalar : j.isScalar = true)
    (hj : j.Every Number.IsLiteral) (hrest : Ends rest) :
    scan (laid l level j rest) = some (opening j, rest) := by
  rw [laid_of_isScalar hscalar]
  cases j with
  | null => exact (spells_marks rest).null.scan
  | bool b =>
      cases b with
      | true => exact (spells_marks rest).yes.scan
      | false => exact (spells_marks rest).no.scan
  | num n => exact (spells_num hj hrest).scan
  | str s => exact (spells_str s rest).scan
  | arr | obj => cases hscalar
  | unreadable => exact hj.elim

/-- The text of a tree begins with its first token. -/
theorem scan_laid (l : Spacing) (level : Nat) (hj : j.Every Number.IsLiteral)
    (hrest : Ends rest) :
    ∃ more, scan (laid l level j rest) = some (opening j, more) := by
  cases hscalar : j.isScalar with
  | true => exact ⟨rest, scan_of_isScalar l level hscalar hj hrest⟩
  | false =>
      cases j with
      | arr items => cases items <;> exact ⟨_, (spells_marks _).openArray.scan⟩
      | obj entries => cases entries <;> exact ⟨_, (spells_marks _).openObject.scan⟩
      | _ => cases hscalar

theorem opening_eq (hj : j.Every Number.IsLiteral) (hj' : j'.Every Number.IsLiteral)
    (hrest : Ends rest) (hrest' : Ends rest') (h : laid l level j rest = laid l level j' rest') :
    opening j = opening j' := by
  obtain ⟨more, hscan⟩ := scan_laid l level hj hrest
  obtain ⟨more', hscan'⟩ := scan_laid l level hj' hrest'
  rw [h, hscan'] at hscan
  exact (Prod.mk.inj (Option.some.inj hscan)).1.symm

/-! ### Trees -/

/-- Of scalars, the first token and the text of a number are all there is. -/
theorem laid_inj_of_isScalar (hscalar : j.isScalar = true) (hj : j.Every Number.IsLiteral)
    (hj' : j'.Every Number.IsLiteral) (hrest : Ends rest) (hrest' : Ends rest')
    (h : laid l level j rest = laid l level j' rest') : j = j' ∧ rest = rest' := by
  have hopening := opening_eq hj hj' hrest hrest' h
  have hscalar' : j'.isScalar = true := by
    cases j' with
    | arr | obj =>
        cases j with
        | arr | obj => cases hscalar
        | _ => cases hopening
    | _ => rfl
  have hscan := scan_of_isScalar l level hscalar hj hrest
  rw [h, scan_of_isScalar l level hscalar' hj' hrest'] at hscan
  obtain rfl := (Prod.mk.inj (Option.some.inj hscan)).2
  rw [laid_of_isScalar hscalar, laid_of_isScalar hscalar'] at h
  have htext := List.append_cancel_right h
  refine ⟨?_, rfl⟩
  cases j with
  | null =>
      cases j' with
      | null => rfl
      | unreadable => exact hj'.elim
      | _ => cases hopening
  | bool b =>
      cases j' with
      | bool b' => rw [Token.bool.inj hopening]
      | _ => cases hopening
  | num n =>
      cases j' with
      | num n' => rw [Number.text_inj hj hj' htext]
      | _ => cases hopening
  | str s =>
      cases j' with
      | str s' => rw [Option.some.inj (Token.str.inj hopening)]
      | _ => cases hopening
  | arr | obj => cases hscalar
  | unreadable => exact hj.elim

/-- What stands in front of a closing bracket does not extend a number, nor does the bracket. -/
theorem ends_close (l : Spacing) (level : Nat) {c : Char} (hdigit : Numeral.isDigit c = false)
    (hmark : c ≠ '.' ∧ c ≠ 'e' ∧ c ≠ 'E') (rest : List Char) : Ends (l.gap level ++ c :: rest) := by
  cases hgap : l.gap level with
  | nil => exact ends_cons hdigit hmark rest
  | cons d ds =>
      have hspace := l.blank level d (hgap ▸ List.mem_cons_self)
      simp only [Token.isSpace, Bool.or_eq_true, beq_iff_eq] at hspace
      rcases hspace with ((rfl | rfl) | rfl) | rfl <;> exact ends_cons (by decide) (by decide) _

theorem ends_laidItems (l : Spacing) (level closing : Nat) (js : List Json) (rest : List Char) :
    Ends (laidItems l level js (l.gap closing ++ ']' :: rest)) := by
  cases js with
  | nil => exact ends_close l closing (by decide) (by decide) rest
  | cons j js => exact ends_cons (by decide) (by decide) _

theorem ends_laidEntries (l : Spacing) (level closing : Nat) (es : List (String × Json))
    (rest : List Char) : Ends (laidEntries l level es (l.gap closing ++ '\x7d' :: rest)) := by
  cases es with
  | nil => exact ends_close l closing (by decide) (by decide) rest
  | cons e es => exact ends_cons (by decide) (by decide) _

/-- No item begins with a closing bracket. -/
theorem gap_laid_ne (closing : Nat) (hj : j.Every Number.IsLiteral) (hrest : Ends rest)
    (cs : List Char) : l.gap closing ++ laid l level j rest ≠ ']' :: cs := by
  intro h
  obtain ⟨more, hscan⟩ := scan_laid l _ hj hrest
  have hclose : scan (']' :: cs) = some (.closeArray, cs) := rfl
  rw [l.head_of_gap (by decide) h, hclose] at hscan
  have hopening := (Prod.mk.inj (Option.some.inj hscan)).1
  cases j <;> cases hopening

/-- No name begins with a closing bracket. -/
theorem gap_stringText_ne (l : Spacing) (level : Nat) (k : String) (rest cs : List Char) :
    l.gap level ++ ((stringText k).toList ++ rest) ≠ '\x7d' :: cs := by
  intro h
  have hquote := l.head_of_gap (by decide) h
  simp [stringText] at hquote

/-- A name can be told from its text. -/
theorem stringText_append_inj {k k' : String}
    (h : (stringText k).toList ++ rest = (stringText k').toList ++ rest') :
    k = k' ∧ rest = rest' := by
  have hscan := Token.scan_stringText k rest
  rw [h, Token.scan_stringText k' rest'] at hscan
  obtain ⟨htoken, hrest⟩ := Prod.mk.inj (Option.some.inj hscan)
  exact ⟨(Option.some.inj (Token.str.inj htoken)).symm, hrest.symm⟩

-- The members of the one container are told from those of the other one after another. A container
-- ends where another goes on, for no member begins with a bracket that closes, and no bracket is a
-- comma. The first member is told like the others, as if a comma stood in front of it.

mutual

theorem laid_inj (l : Spacing) (level : Nat) : (j : Json) → {j' : Json} → {rest rest' : List Char} →
    j.Every Number.IsLiteral → j'.Every Number.IsLiteral → Ends rest → Ends rest' →
    laid l level j rest = laid l level j' rest' → j = j' ∧ rest = rest'
  | .null, _, _, _, hj, hj', hrest, hrest', h => laid_inj_of_isScalar rfl hj hj' hrest hrest' h
  | .bool _, _, _, _, hj, hj', hrest, hrest', h => laid_inj_of_isScalar rfl hj hj' hrest hrest' h
  | .num _, _, _, _, hj, hj', hrest, hrest', h => laid_inj_of_isScalar rfl hj hj' hrest hrest' h
  | .str _, _, _, _, hj, hj', hrest, hrest', h => laid_inj_of_isScalar rfl hj hj' hrest hrest' h
  | .unreadable, _, _, _, hj, _, _, _, _ => hj.elim
  | .arr js, j', rest, rest', hj, hj', hrest, hrest', h => by
      have hopening := opening_eq hj hj' hrest hrest' h
      cases j' with
      | arr js' =>
          cases js with
          | nil =>
              cases js' with
              | nil => exact ⟨rfl, (List.cons.inj (List.cons.inj h).2).2⟩
              | cons j' js' =>
                  have hclose := (List.cons.inj h).2.symm
                  exact absurd hclose (gap_laid_ne _ hj'.1 (ends_laidItems _ _ _ _ _) _)
          | cons j js =>
              cases js' with
              | nil =>
                  have hclose := (List.cons.inj h).2
                  exact absurd hclose (gap_laid_ne _ hj.1 (ends_laidItems _ _ _ _ _) _)
              | cons j' js' =>
                  have hitems := congrArg (',' :: ·) (List.cons.inj h).2
                  obtain ⟨heq, rfl⟩ :=
                    laidItems_inj l (level + 1) level (j :: js) hj hj' hitems
                  exact ⟨congrArg arr heq, rfl⟩
      | _ => cases hopening
  | .obj es, j', rest, rest', hj, hj', hrest, hrest', h => by
      have hopening := opening_eq hj hj' hrest hrest' h
      cases j' with
      | obj es' =>
          cases es with
          | nil =>
              cases es' with
              | nil => exact ⟨rfl, (List.cons.inj (List.cons.inj h).2).2⟩
              | cons e' es' =>
                  have hclose := (List.cons.inj h).2.symm
                  exact absurd hclose (gap_stringText_ne _ _ _ _ _)
          | cons e es =>
              cases es' with
              | nil =>
                  have hclose := (List.cons.inj h).2
                  exact absurd hclose (gap_stringText_ne _ _ _ _ _)
              | cons e' es' =>
                  have hentries := congrArg (',' :: ·) (List.cons.inj h).2
                  obtain ⟨heq, rfl⟩ :=
                    laidEntries_inj l (level + 1) level (e :: es) hj hj' hentries
                  exact ⟨congrArg obj heq, rfl⟩
      | _ => cases hopening

theorem laidItems_inj (l : Spacing) (level closing : Nat) : (js : List Json) → {js' : List Json} →
    {rest rest' : List Char} → EveryItem Number.IsLiteral js → EveryItem Number.IsLiteral js' →
    laidItems l level js (l.gap closing ++ ']' :: rest) =
      laidItems l level js' (l.gap closing ++ ']' :: rest') → js = js' ∧ rest = rest'
  | [], [], _, _, _, _, h => ⟨rfl, (List.cons.inj (List.append_cancel_left h)).2⟩
  | [], _ :: _, _, _, _, _, h => by cases l.head_of_gap (by decide) h
  | _ :: _, [], _, _, _, _, h => by cases l.head_of_gap (by decide) h.symm
  | j :: js, _ :: _, _, _, hj, hj', h => by
      have hmember := List.append_cancel_left (List.cons.inj h).2
      obtain ⟨rfl, hitems⟩ := laid_inj l level j hj.1 hj'.1 (ends_laidItems _ _ _ _ _)
        (ends_laidItems _ _ _ _ _) hmember
      obtain ⟨rfl, rfl⟩ := laidItems_inj l level closing js hj.2 hj'.2 hitems
      exact ⟨rfl, rfl⟩

theorem laidEntries_inj (l : Spacing) (level closing : Nat) :
    (es : List (String × Json)) → {es' : List (String × Json)} → {rest rest' : List Char} →
    EveryEntry Number.IsLiteral es → EveryEntry Number.IsLiteral es' →
    laidEntries l level es (l.gap closing ++ '\x7d' :: rest) =
      laidEntries l level es' (l.gap closing ++ '\x7d' :: rest') → es = es' ∧ rest = rest'
  | [], [], _, _, _, _, h => ⟨rfl, (List.cons.inj (List.append_cancel_left h)).2⟩
  | [], _ :: _, _, _, _, _, h => by cases l.head_of_gap (by decide) h
  | _ :: _, [], _, _, _, _, h => by cases l.head_of_gap (by decide) h.symm
  | (k, j) :: es, (k', _) :: _, _, _, hj, hj', h => by
      have hmember := List.append_cancel_left (List.cons.inj h).2
      obtain ⟨rfl, hvalue⟩ := stringText_append_inj hmember
      obtain ⟨rfl, hentries⟩ := laid_inj l level j hj.1 hj'.1 (ends_laidEntries _ _ _ _ _)
        (ends_laidEntries _ _ _ _ _) (List.append_cancel_left hvalue)
      obtain ⟨rfl, rfl⟩ := laidEntries_inj l level closing es hj.2 hj'.2 hentries
      exact ⟨rfl, rfl⟩

end

/-- The first member of an object can be told from its text, whatever the others are. -/
theorem laid_first_inj (l : Spacing) (level : Nat) {k k' : String}
    {es es' : List (String × Json)} (hj : j.Every Number.IsLiteral)
    (hj' : j'.Every Number.IsLiteral)
    (h : laid l level (.obj ((k, j) :: es)) rest = laid l level (.obj ((k', j') :: es')) rest') :
    k = k' ∧ j = j' := by
  rw [laid, laid] at h
  have hmember := List.append_cancel_left (List.cons.inj h).2
  obtain ⟨rfl, hvalue⟩ := stringText_append_inj hmember
  obtain ⟨rfl, -⟩ := laid_inj l (level + 1) j hj hj' (ends_laidEntries _ _ _ _ _)
    (ends_laidEntries _ _ _ _ _) (List.append_cancel_left hvalue)
  exact ⟨rfl, rfl⟩

/-- Trees that are written alike on one line are one tree. -/
theorem compact_inj (hj : j.Every Number.IsLiteral) (hj' : j'.Every Number.IsLiteral)
    (h : j.compact = j'.compact) : j = j' := by
  have hlaid : laid .line 0 j [] = laid .line 0 j' [] := by
    rw [← compact_append, ← compact_append, h]
  exact (laid_inj .line 0 j hj hj' Token.ends_nil Token.ends_nil hlaid).1

/-- Trees that are written alike at a level of indentation are one tree. -/
theorem prettyAt_inj (level : Nat) (hj : j.Every Number.IsLiteral)
    (hj' : j'.Every Number.IsLiteral) (h : prettyAt level j = prettyAt level j') : j = j' := by
  have hlaid : laid .indented level j [] = laid .indented level j' [] := by
    rw [← prettyAt_append, ← prettyAt_append, h]
  exact (laid_inj .indented level j hj hj' Token.ends_nil Token.ends_nil hlaid).1

end Parley.Json
