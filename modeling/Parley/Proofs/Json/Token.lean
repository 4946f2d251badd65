/-
  Parley.Proofs.Json.Token

  Tokens read back from their text.

    * A string literal reads as the text it was written for, whatever its characters
      (`spells_str`): each character is written so that the scanner takes exactly its code
      unit off the front, and no character is half of a surrogate pair.
    * An integer of 64 bits, signed or not, reads as itself (`readsBack_int`). Of a float this
      is said of its text and not proved: the reader rounds once per operation and is not exact
      on every literal.
    * A number literal stays the same literal in front of a text that does not extend it
      (`scanNumber_append`), so a number that reads back alone does so inside a document.
-/
import Parley.Json.Reader
import Parley.Json.Writer

namespace Parley.Json

/-! ### Strings -/

namespace Token

theorem hexValue?_hexDigit {n : Nat} (h : n < 16) : hexValue? (hexDigit n) = some n := by
  have hall : ∀ n < 16, hexValue? (hexDigit n) = some n := by decide
  exact hall n h

/-- A plain character stands for its own code point. -/
theorem scanUnits_plain {c : Char} (hquote : c ≠ '"') (hslash : c ≠ '\\') (hctrl : ¬ c.toNat < 0x20)
    (cs : List Char) :
    scanUnits (c :: cs) = (scanUnits cs).map fun p => (c.toNat :: p.1, p.2) := by
  rw [scanUnits]
  · simp only [hctrl, hslash, or_self, if_false]
    cases scanUnits cs <;> rfl
  · exact hquote
  · intro a b c d rest heq
    exact absurd heq hslash
  · intro d rest heq
    exact absurd heq hslash

/-- A letter escape stands for its code unit. -/
theorem scanUnits_letter {c : Char} {unit : Nat} (hc : c ≠ 'u') (hunit : escapeUnit? c = some unit)
    (cs : List Char) :
    scanUnits ('\\' :: c :: cs) = (scanUnits cs).map fun p => (unit :: p.1, p.2) := by
  rw [scanUnits]
  · rw [hunit]
    cases scanUnits cs <;> rfl
  · intro a b d e rest heq
    exact absurd heq hc

/-- A control is written with the four digits of its number. -/
theorem scanUnits_control {n : Nat} (h : n < 0x20) (cs : List Char) :
    scanUnits ('\\' :: 'u' :: '0' :: '0' :: hexDigit (n / 16) :: hexDigit (n % 16) :: cs) =
      (scanUnits cs).map fun p => (n :: p.1, p.2) := by
  have hunit : hexUnit? '0' '0' (hexDigit (n / 16)) (hexDigit (n % 16)) = some n := by
    have hzero : hexValue? '0' = some 0 := rfl
    rw [hexUnit?, hzero, hexValue?_hexDigit (by omega), hexValue?_hexDigit (by omega)]
    simp only [Option.bind_eq_bind, Option.bind_some, Option.pure_def, Option.some.injEq]
    omega
  rw [scanUnits, hunit]
  cases scanUnits cs <;> rfl

/-- The scanner takes the written form of a character as its code point. -/
theorem scanUnits_escapeChar (c : Char) (cs : List Char) :
    scanUnits (escapeChar c ++ cs) = (scanUnits cs).map fun p => (c.toNat :: p.1, p.2) := by
  by_cases hquote : c = '"'
  · subst hquote
    exact scanUnits_letter (by decide) rfl cs
  by_cases hslash : c = '\\'
  · subst hslash
    exact scanUnits_letter (by decide) rfl cs
  by_cases hnewline : c = '\n'
  · subst hnewline
    exact scanUnits_letter (by decide) rfl cs
  by_cases hreturn : c = '\r'
  · subst hreturn
    exact scanUnits_letter (by decide) rfl cs
  by_cases htab : c = '\t'
  · subst htab
    exact scanUnits_letter (by decide) rfl cs
  simp only [escapeChar, hquote, hslash, hnewline, hreturn, htab, if_false]
  split
  · rename_i hback
    rw [hback]
    exact scanUnits_letter (by decide) rfl cs
  · split
    · rename_i hfeed
      rw [hfeed]
      exact scanUnits_letter (by decide) rfl cs
    · split
      · rename_i hcontrol
        exact scanUnits_control hcontrol cs
      · rename_i hplain
        exact scanUnits_plain hquote hslash hplain cs

/-- A quoted text is scanned as its code points, whatever follows. -/
theorem scanUnits_quoted (s rest : List Char) :
    scanUnits (s.flatMap escapeChar ++ '"' :: rest) = some (s.map Char.toNat, rest) := by
  induction s with
  | nil => simp [scanUnits]
  | cons c s ih =>
      rw [List.flatMap_cons, List.append_assoc, scanUnits_escapeChar, ih]
      rfl

/-- No character is half of a surrogate pair. -/
theorem not_surrogate (c : Char) :
    isHighSurrogate c.toNat = false ∧ isLowSurrogate c.toNat = false := by
  have hvalid : c.toNat < 0xD800 ∨ 0xDFFF < c.toNat ∧ c.toNat < 0x110000 := c.valid
  simp only [isHighSurrogate, isLowSurrogate, Bool.and_eq_false_iff, decide_eq_false_iff_not]
  omega

theorem unitsToChars?_code_points (s : List Char) : unitsToChars? (s.map Char.toNat) = some s := by
  induction s with
  | nil => rfl
  | cons c s ih =>
      obtain ⟨hhigh, hlow⟩ := not_surrogate c
      cases s with
      | nil => simp [unitsToChars?, hhigh, hlow]
      | cons d s =>
          simp only [List.map_cons] at ih ⊢
          rw [unitsToChars?, hhigh, hlow, ih]
          simp

theorem scan_quote (cs : List Char) :
    scan ('"' :: cs) = (scanUnits cs).map fun p =>
      (.str ((unitsToChars? p.1).map String.ofList), p.2) := by
  rw [scan]
  cases scanUnits cs <;> rfl

theorem scan_stringText (s : String) (rest : List Char) :
    scan ((stringText s).toList ++ rest) = some (.str (some s), rest) := by
  have htext : (stringText s).toList ++ rest =
      '"' :: (s.toList.flatMap escapeChar ++ '"' :: rest) := by simp [stringText]
  rw [htext, scan_quote, scanUnits_quoted, Option.map_some, unitsToChars?_code_points]
  simp

/-! ### What follows a number -/

/-- The text begins with nothing that a number literal could go on with. -/
def Ends (rest : List Char) : Prop :=
  ∀ c ∈ rest.head?, Numeral.isDigit c = false ∧ c ≠ '.' ∧ c ≠ 'e' ∧ c ≠ 'E'

theorem ends_nil : Ends [] := by
  intro c hc
  cases hc

theorem ends_cons {c : Char} (hdigit : Numeral.isDigit c = false)
    (hmark : c ≠ '.' ∧ c ≠ 'e' ∧ c ≠ 'E') (rest : List Char) : Ends (c :: rest) := by
  intro d hd
  cases hd
  exact ⟨hdigit, hmark⟩

theorem Ends.takeWhile {rest : List Char} (h : Ends rest) :
    rest.takeWhile Numeral.isDigit = [] := by
  cases rest with
  | nil => rfl
  | cons c rest => rw [List.takeWhile_cons, (h c rfl).1]; rfl

theorem Ends.dropWhile {rest : List Char} (h : Ends rest) :
    rest.dropWhile Numeral.isDigit = rest := by
  cases rest with
  | nil => rfl
  | cons c rest => rw [List.dropWhile_cons, (h c rfl).1]; rfl

/-- Digits in front of a text stay the same digits. -/
theorem spanDigits_append (cs : List Char) {rest : List Char} (hrest : Ends rest) :
    spanDigits (cs ++ rest) = ((spanDigits cs).1, (spanDigits cs).2 ++ rest) := by
  induction cs with
  | nil => simp [spanDigits, hrest.takeWhile, hrest.dropWhile]
  | cons c cs ih =>
      obtain ⟨htake, hdrop⟩ := Prod.mk.inj ih
      cases hc : Numeral.isDigit c with
      | true => simp [spanDigits, hc, htake, hdrop]
      | false => simp [spanDigits, hc]

theorem scanWhole_cons {c : Char} (hc : c ≠ '0') (cs : List Char) :
    scanWhole (c :: cs) =
      if Numeral.isDigit c then some (c :: (spanDigits cs).1, (spanDigits cs).2) else none := by
  rw [scanWhole]
  exact hc

theorem scanWhole_append {cs ds tail rest : List Char} (h : scanWhole cs = some (ds, tail))
    (hrest : Ends rest) : scanWhole (cs ++ rest) = some (ds, tail ++ rest) := by
  cases cs with
  | nil => cases h
  | cons c cs =>
      by_cases hzero : c = '0'
      · subst hzero
        cases h
        rfl
      · rw [scanWhole_cons hzero] at h
        rw [List.cons_append, scanWhole_cons hzero, spanDigits_append cs hrest]
        split at h
        · rename_i hdigit
          cases h
          rw [if_pos hdigit]
        · cases h

/-- At least one digit, and what `f` makes of the digits. -/
def someDigits {α : Type} (f : List Char → α) (cs : List Char) : Option (α × List Char) :=
  if (spanDigits cs).1 = [] then none else some (f (spanDigits cs).1, (spanDigits cs).2)

theorem someDigits_append {α : Type} {f : List Char → α} {a : α} {cs tail rest : List Char}
    (h : someDigits f cs = some (a, tail)) (hrest : Ends rest) :
    someDigits f (cs ++ rest) = some (a, tail ++ rest) := by
  rw [someDigits] at h ⊢
  rw [spanDigits_append cs hrest]
  split at h
  · cases h
  · rename_i hne
    cases h
    rw [if_neg hne]

theorem scanFraction_point (cs : List Char) : scanFraction ('.' :: cs) = someDigits some cs := by
  rw [scanFraction, someDigits]
  rcases spanDigits cs with ⟨ds, tail⟩
  cases ds <;> rfl

theorem scanFraction_of_head_ne {cs : List Char} (h : ∀ c ∈ cs.head?, c ≠ '.') :
    scanFraction cs = some (none, cs) := by
  rw [scanFraction]
  rintro rest rfl
  exact h '.' rfl rfl

theorem scanFraction_append {cs tail rest : List Char} {ds : Option (List Char)}
    (h : scanFraction cs = some (ds, tail)) (hrest : Ends rest) :
    scanFraction (cs ++ rest) = some (ds, tail ++ rest) := by
  cases cs with
  | nil =>
      cases h
      exact scanFraction_of_head_ne fun c hc => (hrest c hc).2.1
  | cons c cs =>
      by_cases hpoint : c = '.'
      · subst hpoint
        rw [scanFraction_point] at h
        rw [List.cons_append, scanFraction_point]
        exact someDigits_append h hrest
      · have hhead : ∀ more : List Char, ∀ d ∈ (c :: more).head?, d ≠ '.' := by
          rintro more d ⟨⟩
          exact hpoint
        rw [scanFraction_of_head_ne (hhead cs)] at h
        cases h
        exact scanFraction_of_head_ne (hhead (cs ++ rest))

theorem scanSigned_minus (cs : List Char) :
    scanSigned ('-' :: cs) = someDigits (fun ds => -(Numeral.digitsValue ds : Int)) cs := by
  simp only [scanSigned, someDigits]
  rcases spanDigits cs with ⟨ds, tail⟩
  cases ds <;> rfl

theorem scanSigned_plus (cs : List Char) :
    scanSigned ('+' :: cs) = someDigits (fun ds => (Numeral.digitsValue ds : Int)) cs := by
  simp only [scanSigned, someDigits]
  rcases spanDigits cs with ⟨ds, tail⟩
  cases ds <;> rfl

theorem scanSigned_digit {c : Char} (hminus : c ≠ '-') (hplus : c ≠ '+') (cs : List Char) :
    scanSigned (c :: cs) = someDigits (fun ds => (Numeral.digitsValue ds : Int)) (c :: cs) := by
  rcases hspan : spanDigits (c :: cs) with ⟨ds, tail⟩
  cases ds <;> simp [scanSigned, someDigits, hminus, hplus, hspan]

theorem scanSigned_append {cs tail rest : List Char} {n : Int}
    (h : scanSigned cs = some (n, tail)) (hrest : Ends rest) :
    scanSigned (cs ++ rest) = some (n, tail ++ rest) := by
  cases cs with
  | nil => cases h
  | cons c cs =>
      by_cases hminus : c = '-'
      · subst hminus
        rw [scanSigned_minus] at h
        rw [List.cons_append, scanSigned_minus]
        exact someDigits_append h hrest
      by_cases hplus : c = '+'
      · subst hplus
        rw [scanSigned_plus] at h
        rw [List.cons_append, scanSigned_plus]
        exact someDigits_append h hrest
      · rw [scanSigned_digit hminus hplus] at h
        rw [List.cons_append, scanSigned_digit hminus hplus]
        exact someDigits_append h hrest

theorem scanExponent_of_head_ne {cs : List Char} (h : ∀ c ∈ cs.head?, c ≠ 'e' ∧ c ≠ 'E') :
    scanExponent cs = some (none, cs) := by
  rw [scanExponent]
  · rintro rest rfl
    exact (h 'e' rfl).1 rfl
  · rintro rest rfl
    exact (h 'E' rfl).2 rfl

theorem scanExponent_append {cs tail rest : List Char} {n : Option Int}
    (h : scanExponent cs = some (n, tail)) (hrest : Ends rest) :
    scanExponent (cs ++ rest) = some (n, tail ++ rest) := by
  cases cs with
  | nil =>
      cases h
      exact scanExponent_of_head_ne fun c hc => (hrest c hc).2.2
  | cons c cs =>
      by_cases hmark : c = 'e' ∨ c = 'E'
      · have hsigned : ∀ more : List Char,
            scanExponent (c :: more) = (scanSigned more).map fun p => (some p.1, p.2) := by
          intro more
          rcases hmark with rfl | rfl <;> rfl
        rw [hsigned] at h
        obtain ⟨⟨e, left⟩, hscan, heq⟩ := Option.map_eq_some_iff.1 h
        cases heq
        rw [List.cons_append, hsigned, scanSigned_append hscan hrest]
        rfl
      · have hhead : ∀ more : List Char, ∀ d ∈ (c :: more).head?, d ≠ 'e' ∧ d ≠ 'E' := by
          rintro more d ⟨⟩
          exact not_or.1 hmark
        rw [scanExponent_of_head_ne (hhead cs)] at h
        cases h
        exact scanExponent_of_head_ne (hhead (cs ++ rest))

theorem scanUnsigned_append {negative : Bool} {cs tail rest : List Char} {n : Option Number}
    (h : scanUnsigned negative cs = some (n, tail)) (hrest : Ends rest) :
    scanUnsigned negative (cs ++ rest) = some (n, tail ++ rest) := by
  simp only [scanUnsigned, Option.bind_eq_bind, Option.bind_eq_some_iff] at h
  obtain ⟨⟨whole, afterWhole⟩, hwhole, ⟨fraction, afterFraction⟩, hfraction,
    ⟨exponent, afterExponent⟩, hexponent, heq⟩ := h
  cases heq
  simp only [scanUnsigned, scanWhole_append hwhole hrest, Option.bind_eq_bind, Option.bind_some,
    scanFraction_append hfraction hrest, scanExponent_append hexponent hrest]
  rfl

theorem scanNumber_of_ne {c : Char} (hc : c ≠ '-') (cs : List Char) :
    scanNumber (c :: cs) = scanUnsigned false (c :: cs) := by
  rw [scanNumber]
  rintro rest ⟨⟩
  exact hc rfl

/-- No literal without a sign begins with one. -/
theorem scanNumber_of_scanUnsigned {cs : List Char} {p : Option Number × List Char}
    (h : scanUnsigned false cs = some p) : scanNumber cs = some p := by
  cases cs with
  | nil => cases h
  | cons c cs =>
      rw [scanNumber_of_ne ?_ cs, h]
      rintro rfl
      have hnone : scanUnsigned false ('-' :: cs) = none := rfl
      rw [hnone] at h
      cases h

/-- A number literal stays the same literal in front of a text that does not extend it. -/
theorem scanNumber_append {cs tail rest : List Char} {n : Option Number}
    (h : scanNumber cs = some (n, tail)) (hrest : Ends rest) :
    scanNumber (cs ++ rest) = some (n, tail ++ rest) := by
  cases cs with
  | nil => cases h
  | cons c cs =>
      by_cases hminus : c = '-'
      · subst hminus
        exact scanUnsigned_append h hrest
      · rw [scanNumber_of_ne hminus] at h
        rw [List.cons_append, scanNumber_of_ne hminus]
        exact scanUnsigned_append h hrest

/-- A number literal begins with a sign or a digit. -/
theorem head_of_scanNumber {c : Char} {cs : List Char} {p : Option Number × List Char}
    (h : scanNumber (c :: cs) = some p) : c = '-' ∨ Numeral.isDigit c = true := by
  by_cases hminus : c = '-'
  · exact .inl hminus
  · rw [scanNumber_of_ne hminus] at h
    simp only [scanUnsigned, Option.bind_eq_bind, Option.bind_eq_some_iff] at h
    obtain ⟨p, hwhole, -⟩ := h
    by_cases hzero : c = '0'
    · exact .inr (by rw [hzero]; decide)
    · rw [scanWhole_cons hzero] at hwhole
      split at hwhole
      · exact .inr (by assumption)
      · cases hwhole

end Token

/-! ### Integers -/

namespace Numeral

theorem le_ofDigitChars (ds : List Char) (n : Nat) : n ≤ Nat.ofDigitChars 10 ds n := by
  induction ds generalizing n with
  | nil => exact Nat.le_refl n
  | cons c ds ih =>
      rw [Nat.ofDigitChars_cons]
      exact Nat.le_trans (by omega) (ih _)

theorem digitsValue_eq (ds : List Char) : digitsValue ds = Nat.ofDigitChars 10 ds 0 := by
  rw [digitsValue, Nat.ofDigitChars_eq_foldl]
  congr 1
  funext n c
  rw [Nat.mul_comm]
  rfl

theorem digitsValue_toDigits (n : Nat) : digitsValue (Nat.toDigits 10 n) = n := by
  rw [digitsValue_eq, Nat.ofDigitChars_ten_toDigits]

/-- Digits whose number fits 64 bits are all gathered. -/
theorem gather_of_fits {ds : List Char} {n : Nat}
    (h : Nat.ofDigitChars 10 ds n < Nat.pow 2 64) :
    gather n ds = (Nat.ofDigitChars 10 ds n, []) := by
  induction ds generalizing n with
  | nil => rfl
  | cons c ds ih =>
      rw [Nat.ofDigitChars_cons, Nat.mul_comm] at h ⊢
      have hfits : n * 10 + digitValue c < Nat.pow 2 64 :=
        Nat.lt_of_le_of_lt (le_ofDigitChars ds _) h
      rw [gather, if_pos hfits]
      exact ih h

theorem gather_toDigits {n : Nat} (h : n < Nat.pow 2 64) :
    gather 0 (Nat.toDigits 10 n) = (n, []) := by
  have hvalue := Nat.ofDigitChars_ten_toDigits (n := n)
  rw [gather_of_fits (by rw [hvalue]; exact h), hvalue]

/-- The digits of a positive number do not begin with `0`. -/
theorem toDigits_eq_cons {n : Nat} (h : 0 < n) :
    ∃ c ds, Nat.toDigits 10 n = c :: ds ∧ c ≠ '0' := by
  induction n using Nat.strongRecOn with
  | ind n ih =>
      rw [Nat.toDigits_eq_if (by decide)]
      split
      · rename_i hlt
        have hall : ∀ n < 10, 0 < n → Nat.digitChar n ≠ '0' := by decide
        exact ⟨n.digitChar, [], rfl, hall n hlt h⟩
      · obtain ⟨c, ds, hdigits, hc⟩ := ih (n / 10) (by omega) (by omega)
        exact ⟨c, ds ++ [(n % 10).digitChar], by rw [hdigits, List.cons_append], hc⟩

end Numeral

namespace Token

/-- The text begins with nothing that digits could go on with. -/
def Stops (rest : List Char) : Prop := ∀ c ∈ rest.head?, Numeral.isDigit c = false

theorem stops_nil : Stops [] := by
  intro c hc
  cases hc

theorem spanDigits_of_stops {ds rest : List Char} (hall : ∀ c ∈ ds, Numeral.isDigit c = true)
    (hrest : Stops rest) : spanDigits (ds ++ rest) = (ds, rest) := by
  induction ds with
  | nil =>
      cases rest with
      | nil => rfl
      | cons c rest =>
          have hc : Numeral.isDigit c = false := hrest c rfl
          simp [spanDigits, hc]
  | cons c ds ih =>
      have hc : Numeral.isDigit c = true := hall c List.mem_cons_self
      obtain ⟨htake, hdrop⟩ := Prod.mk.inj (ih fun d hd => hall d (List.mem_cons_of_mem c hd))
      simp [spanDigits, hc, htake, hdrop]

/-- What may stand before the point: `0` alone, or digits that do not begin with `0`. -/
inductive Whole : List Char → Prop
  | zero : Whole ['0']
  | digits {c : Char} {ds : List Char} (hc : c ≠ '0')
      (hall : ∀ d ∈ c :: ds, Numeral.isDigit d = true) : Whole (c :: ds)

theorem scanWhole_of_whole {ds rest : List Char} (h : Whole ds) (hrest : Stops rest) :
    scanWhole (ds ++ rest) = some (ds, rest) := by
  cases h with
  | zero => rfl
  | digits hc hall =>
      rw [List.cons_append, scanWhole_cons hc, if_pos (hall _ List.mem_cons_self),
        spanDigits_of_stops (fun d hd => hall d (List.mem_cons_of_mem _ hd)) hrest]

theorem isDigit_of_toDigits {n : Nat} : ∀ c ∈ Nat.toDigits 10 n, Numeral.isDigit c = true :=
  fun _ hc => Nat.isDigit_of_mem_toDigits (by decide) (by decide) hc

/-- The digits of a positive number, or the first of them, may stand before the point. -/
theorem whole_of_toDigits {n : Nat} (hn : 0 < n) {ds es : List Char}
    (hsplit : Nat.toDigits 10 n = ds ++ es) (hds : ds ≠ []) : Whole ds := by
  obtain ⟨c, cs, hdigits, hc⟩ := Numeral.toDigits_eq_cons hn
  cases ds with
  | nil => exact absurd rfl hds
  | cons d ds =>
      rw [hdigits, List.cons_append] at hsplit
      obtain ⟨rfl, -⟩ := List.cons.inj hsplit
      refine .digits hc fun d hd => isDigit_of_toDigits (n := n) d ?_
      rw [hdigits, hsplit]
      exact List.mem_append_left es hd

theorem whole_toDigits (n : Nat) : Whole (Nat.toDigits 10 n) := by
  by_cases hn : 0 < n
  · exact whole_of_toDigits hn (List.append_nil _).symm Nat.toDigits_ne_nil
  · obtain rfl : n = 0 := by omega
    exact .zero

theorem scanWhole_toDigits (n : Nat) :
    scanWhole (Nat.toDigits 10 n) = some (Nat.toDigits 10 n, []) := by
  have hscan := scanWhole_of_whole (whole_toDigits n) stops_nil
  rwa [List.append_nil] at hscan

theorem scanUnsigned_toDigits (negative : Bool) (n : Nat) :
    scanUnsigned negative (Nat.toDigits 10 n) =
      some (Numeral.number? ⟨negative, Nat.toDigits 10 n, none, none⟩, []) := by
  rw [scanUnsigned, scanWhole_toDigits]
  rfl

end Token

deriving instance DecidableEq for Number

/-- The text of the number is, as a whole, a literal that stands for the number. -/
def Number.ReadsBack (n : Number) : Prop := Token.scanNumber n.text.toList = some (some n, [])

namespace Number

/-- The text of the number is, as a whole, a literal that stands for some number. -/
def IsLiteral (n : Number) : Prop := ∃ m, Token.scanNumber n.text.toList = some (some m, [])

/-- The number that the text of a number stands for. -/
def reread (n : Number) : Number :=
  match Token.scanNumber n.text.toList with
  | some (some m, []) => m
  | _ => n

theorem IsLiteral.scan {n : Number} (h : n.IsLiteral) :
    Token.scanNumber n.text.toList = some (some n.reread, []) := by
  obtain ⟨m, hm⟩ := h
  rw [reread, hm]

theorem ReadsBack.isLiteral {n : Number} (h : n.ReadsBack) : n.IsLiteral := ⟨n, h⟩

theorem ReadsBack.reread_eq {n : Number} (h : n.ReadsBack) : n.reread = n := by
  rw [reread, h]

instance (n : Number) : Decidable n.ReadsBack :=
  inferInstanceAs (Decidable (Token.scanNumber n.text.toList = some (some n, [])))

theorem readsBack_nat {n : Nat} (h : n < Nat.pow 2 64) : (int n).ReadsBack := by
  have htext : (int n).text.toList = Nat.toDigits 10 n := by
    rw [text, Int.toString_eq_repr, Int.repr_eq_if, if_pos (by omega), Int.toNat_natCast,
      Nat.toList_repr]
  have hnumber : Numeral.number? ⟨false, Nat.toDigits 10 n, none, none⟩ = some (int n) := by
    rw [Numeral.number?, Numeral.gather_toDigits h]
    rfl
  rw [ReadsBack, htext, Token.scanNumber_of_scanUnsigned (Token.scanUnsigned_toDigits false n),
    hnumber]

theorem readsBack_neg {n : Nat} (hpos : 0 < n) (h : n ≤ Nat.pow 2 63) :
    (int (-(n : Int))).ReadsBack := by
  have htext : (int (-(n : Int))).text.toList = '-' :: Nat.toDigits 10 n := by
    rw [text, Int.toString_eq_repr, Int.repr_eq_if, if_neg (by omega), Int.neg_neg,
      Int.toNat_natCast, String.toList_append, Nat.toList_repr]
    rfl
  have hnumber : Numeral.number? ⟨true, Nat.toDigits 10 n, none, none⟩ =
      some (int (-(n : Int))) := by
    have hfits : n < Nat.pow 2 64 := Nat.lt_of_le_of_lt h (by decide)
    rw [Numeral.number?, Numeral.gather_toDigits hfits]
    simp only [Bool.not_true, Bool.false_eq_true, if_false]
    rw [if_pos ⟨hpos, h⟩]
  rw [ReadsBack, htext, Token.scanNumber, Token.scanUnsigned_toDigits, hnumber]

/-- An integer of 64 bits, signed or not, reads back. -/
theorem readsBack_int {n : Int} (hlow : -(Nat.pow 2 63 : Nat) ≤ n)
    (hhigh : n < (Nat.pow 2 64 : Nat)) : (int n).ReadsBack := by
  by_cases hn : 0 ≤ n
  · rw [← Int.toNat_of_nonneg hn]
    exact readsBack_nat (by omega)
  · obtain ⟨m, rfl⟩ : ∃ m : Nat, n = -(m : Int) := ⟨(-n).toNat, by omega⟩
    exact readsBack_neg (by omega) (by omega)

end Number

/-! ### Spelling -/

/-- The text `w` in front of `rest` is scanned as the token `t`. -/
structure Token.Spells (w : List Char) (t : Token) (rest : List Char) : Prop where
  starts : ∃ c cs, w = c :: cs ∧ Token.isSpace c = false
  scan : Token.scan (w ++ rest) = some (t, rest)

namespace Token

/-- The marks and the three words stand for their tokens. -/
structure SpellsMarks (rest : List Char) : Prop where
  openArray : Spells "[".toList .openArray rest
  closeArray : Spells "]".toList .closeArray rest
  openObject : Spells "\x7b".toList .openObject rest
  closeObject : Spells "\x7d".toList .closeObject rest
  comma : Spells ",".toList .comma rest
  colon : Spells ":".toList .colon rest
  null : Spells "null".toList .null rest
  yes : Spells "true".toList (.bool true) rest
  no : Spells "false".toList (.bool false) rest

theorem spells_marks (rest : List Char) : SpellsMarks rest := by
  constructor <;> exact ⟨⟨_, _, rfl, rfl⟩, rfl⟩

/-- A string literal stands for the text it was written for. -/
theorem spells_str (s : String) (rest : List Char) :
    Spells (stringText s).toList (.str (some s)) rest where
  starts := ⟨'"', s.toList.flatMap escapeChar ++ ['"'], by simp [stringText], rfl⟩
  scan := scan_stringText s rest

/-- What begins like a number is scanned as one. -/
theorem scan_of_number {c : Char} (hc : c = '-' ∨ Numeral.isDigit c = true) (cs : List Char) :
    scan (c :: cs) = (scanNumber (c :: cs)).map fun p => (.num p.1, p.2) := by
  rw [scan]
  · cases scanNumber (c :: cs) <;> rfl
  all_goals
    rintro rest heq
    injection heq with heq
    subst heq
    revert hc
    decide

theorem isSpace_of_number {c : Char} (hc : c = '-' ∨ Numeral.isDigit c = true) :
    isSpace c = false := by
  cases hspace : isSpace c with
  | false => rfl
  | true =>
      simp only [isSpace, Bool.or_eq_true, beq_iff_eq] at hspace
      rcases hspace with ((rfl | rfl) | rfl) | rfl <;> revert hc <;> decide

/-- A number is read off its text in front of a text that does not extend it. -/
theorem spells_num {n : Number} (h : n.IsLiteral) {rest : List Char} (hrest : Ends rest) :
    Spells n.text.toList (.num (some n.reread)) rest := by
  have h := h.scan
  cases htext : n.text.toList with
  | nil =>
      rw [htext] at h
      cases h
  | cons c cs =>
      rw [htext] at h
      have hc := head_of_scanNumber h
      refine ⟨⟨c, cs, rfl, isSpace_of_number hc⟩, ?_⟩
      rw [List.cons_append, scan_of_number hc, ← List.cons_append, scanNumber_append h hrest]
      rfl

end Token

end Parley.Json
