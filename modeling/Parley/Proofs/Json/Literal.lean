/-
  Parley.Proofs.Json.Literal

  The text of a finite float is a literal with a point or an exponent. Of such a literal it
  matters only which number its digits make and at which power of ten the last of them stands,
  and the text says both (`Lays.unique`). A decimal is laid out as a literal of its own value:
  without exponent there are digits after the point (`lays_positional`), with one the exponent is
  that of the first digit (`lays_scientific`).

  So the text of a float tells its shortest decimal, and with it the float: two numbers that are
  written alike are one number (`Number.text_inj`).

  The text is also read as a float. Literals that are divided cannot overflow, and the shortest
  decimal of a float leaves room for the others. The float that is read need not be the one that
  was written, for the reader rounds more than once. What is shown is that there is one
  (`isLiteral_float`).
-/
import Parley.Proofs.Json.Token
import Parley.Proofs.Number.Distinct

namespace Parley.Json

open Numeral (scale?)

/-! ### Scanning a literal -/

namespace Token

/-- What may stand after the point, if there is one: one digit at least. -/
def Fraction (fraction : Option (List Char)) : Prop :=
  ∀ ds ∈ fraction, ds ≠ [] ∧ ∀ c ∈ ds, Numeral.isDigit c = true

/-- The point and the digits after it. -/
def fractionText : Option (List Char) → List Char
  | none => []
  | some ds => '.' :: ds

/-- The exponent with its sign. -/
def exponentText : Option Int → List Char
  | none => []
  | some e => 'e' :: (if 0 ≤ e then '+' else '-') :: Nat.toDigits 10 e.natAbs

theorem stops_exponentText (e : Option Int) : Stops (exponentText e) := by
  cases e with
  | none => nofun
  | some e =>
      rintro c ⟨⟩
      rfl

theorem stops_fractionText (fraction : Option (List Char)) (e : Option Int) :
    Stops (fractionText fraction ++ exponentText e) := by
  cases fraction with
  | none => exact stops_exponentText e
  | some ds =>
      rintro c ⟨⟩
      rfl

theorem someDigits_toDigits {α : Type} (f : List Char → α) (n : Nat) :
    someDigits f (Nat.toDigits 10 n) = some (f (Nat.toDigits 10 n), []) := by
  have hspan := spanDigits_of_stops (isDigit_of_toDigits (n := n)) stops_nil
  rw [List.append_nil] at hspan
  rw [someDigits, hspan, if_neg Nat.toDigits_ne_nil]

theorem scanExponent_text (e : Option Int) : scanExponent (exponentText e) = some (e, []) := by
  cases e with
  | none => rfl
  | some e =>
      simp only [exponentText, scanExponent]
      split
      · rw [scanSigned_plus, someDigits_toDigits, Numeral.digitsValue_toDigits, Option.map_some,
          Int.natAbs_of_nonneg (by assumption)]
      · rw [scanSigned_minus, someDigits_toDigits, Numeral.digitsValue_toDigits, Option.map_some,
          Int.ofNat_natAbs_of_nonpos (by omega), Int.neg_neg]

theorem scanFraction_text {fraction : Option (List Char)} (h : Fraction fraction)
    (e : Option Int) :
    scanFraction (fractionText fraction ++ exponentText e) = some (fraction, exponentText e) := by
  cases fraction with
  | none =>
      refine scanFraction_of_head_ne ?_
      cases e with
      | none => nofun
      | some e =>
          rintro c ⟨⟩
          decide
  | some ds =>
      obtain ⟨hne, hall⟩ := h ds rfl
      rw [fractionText, List.cons_append, scanFraction_point, someDigits,
        spanDigits_of_stops hall (stops_exponentText e), if_neg hne]

/-- The parts of a literal can be told from its text. -/
theorem parts_inj {whole whole' : List Char} {fraction fraction' : Option (List Char)}
    {e e' : Option Int} (hwhole : Whole whole) (hwhole' : Whole whole')
    (hfraction : Fraction fraction) (hfraction' : Fraction fraction')
    (h : whole ++ (fractionText fraction ++ exponentText e) =
      whole' ++ (fractionText fraction' ++ exponentText e')) :
    whole = whole' ∧ fraction = fraction' ∧ e = e' := by
  have hscan := scanWhole_of_whole hwhole (stops_fractionText fraction e)
  rw [h, scanWhole_of_whole hwhole' (stops_fractionText fraction' e')] at hscan
  obtain ⟨hwhole, hrest⟩ := Prod.mk.inj (Option.some.inj hscan)
  have hscan := scanFraction_text hfraction e
  rw [← hrest, scanFraction_text hfraction' e'] at hscan
  obtain ⟨hfraction, hrest⟩ := Prod.mk.inj (Option.some.inj hscan)
  have hscan := scanExponent_text e
  rw [← hrest, scanExponent_text e'] at hscan
  obtain ⟨hexponent, -⟩ := Prod.mk.inj (Option.some.inj hscan)
  exact ⟨hwhole.symm, hfraction.symm, hexponent.symm⟩

/-- A literal is scanned as its parts. -/
theorem scanUnsigned_text (negative : Bool) {whole : List Char} {fraction : Option (List Char)}
    (hwhole : Whole whole) (hfraction : Fraction fraction) (e : Option Int) :
    scanUnsigned negative (whole ++ (fractionText fraction ++ exponentText e)) =
      some (Numeral.number? ⟨negative, whole, fraction, e⟩, []) := by
  simp only [scanUnsigned, scanWhole_of_whole hwhole (stops_fractionText fraction e),
    scanFraction_text hfraction, scanExponent_text, Option.bind_eq_bind, Option.bind_some]
  rfl

end Token

open Token (Whole Fraction fractionText exponentText isDigit_of_toDigits whole_of_toDigits)

/-! ### What it stands for -/

/-- A literal with a point or an exponent whose digits fit 64 bits is their number, scaled. -/
theorem Numeral.number?_of_fits {l : Numeral} (hfloat : l.fraction ≠ none ∨ l.exponent ≠ none)
    {n : Nat} (hn : Nat.ofDigitChars 10 (l.whole ++ l.fraction.getD []) 0 = n)
    (hfits : n < Nat.pow 2 64) :
    l.number? = (scale? n (l.exponent.getD 0 - (l.fraction.getD []).length)).map fun x =>
      .float (if l.negative then -x else x) := by
  subst hn
  obtain ⟨negative, whole, fraction, exponent⟩ := l
  rw [Nat.ofDigitChars_append] at hfits ⊢
  -- No digit is dropped, so only the places behind the point count towards the power.
  have hwhole := gather_of_fits (Nat.lt_of_le_of_lt (le_ofDigitChars _ _) hfits)
  have hplaces := gather_of_fits hfits
  simp only [number?, hwhole]
  split
  · exact absurd hfloat (by simp)
  · simp [hplaces, Int.sub_eq_add_neg]

/-- The text is a literal with a point or an exponent. Its digits make `n`, and the last of them
    stands at that power of ten. -/
def Lays (w : List Char) (n : Nat) (power : Int) : Prop :=
  ∃ whole fraction e, Whole whole ∧ Fraction fraction ∧ (fraction ≠ none ∨ e ≠ none) ∧
    w = whole ++ (fractionText fraction ++ exponentText e) ∧
    Nat.ofDigitChars 10 (whole ++ fraction.getD []) 0 = n ∧
    power = e.getD 0 - (fraction.getD []).length

namespace Lays

variable {w : List Char} {n n' : Nat} {power power' : Int}

/-- A text is a literal for one number only. -/
theorem unique (h : Lays w n power) (h' : Lays w n' power') : n = n' ∧ power = power' := by
  obtain ⟨whole, fraction, e, hwhole, hfraction, -, hw, rfl, rfl⟩ := h
  obtain ⟨whole', fraction', e', hwhole', hfraction', -, hw', rfl, rfl⟩ := h'
  obtain ⟨rfl, rfl, rfl⟩ := Token.parts_inj hwhole hwhole' hfraction hfraction' (hw ▸ hw')
  exact ⟨rfl, rfl⟩

/-- Digits alone have neither a point nor an exponent. -/
theorem ne_toDigits (h : Lays w n power) (m : Nat) : w ≠ Nat.toDigits 10 m := by
  obtain ⟨whole, fraction, e, hwhole, hfraction, hfloat, rfl, -, -⟩ := h
  intro heq
  rw [← List.append_nil (Nat.toDigits 10 m)] at heq
  have hplain : Token.Fraction none := nofun
  obtain ⟨-, rfl, rfl⟩ :=
    @Token.parts_inj _ _ _ none _ none hwhole (Token.whole_toDigits m) hfraction hplain heq
  exact hfloat.elim (absurd rfl) (absurd rfl)

/-- There is no sign in front of the digits. -/
theorem ne_minus (h : Lays w n power) (rest : List Char) : w ≠ '-' :: rest := by
  obtain ⟨whole, fraction, e, hwhole, -, -, rfl, -, -⟩ := h
  intro heq
  cases hwhole with
  | zero => cases heq
  | digits hc hall =>
      obtain ⟨rfl, -⟩ := List.cons.inj heq
      have hdigit := hall _ List.mem_cons_self
      revert hdigit
      decide

/-- The literal is read as its digits, scaled, if they fit 64 bits. -/
theorem scan (h : Lays w n power) (hfits : n < Nat.pow 2 64) (negative : Bool) :
    Token.scanUnsigned negative w =
      some ((scale? n power).map fun x => .float (if negative then -x else x), []) := by
  obtain ⟨whole, fraction, e, hwhole, hfraction, hfloat, rfl, hn, rfl⟩ := h
  rw [Token.scanUnsigned_text negative hwhole hfraction,
    Numeral.number?_of_fits hfloat hn hfits]

end Lays

/-! ### Layouts -/

section Layouts

open Decimal (digitCount layoutPositional layoutScientific leading zeros)

theorem toList_toString (n : Nat) : (toString n).toList = Nat.toDigits 10 n := by
  rw [Nat.toString_eq_repr, Nat.toList_repr]

theorem toList_zeros (n : Nat) : (zeros n).toList = List.replicate n '0' :=
  String.toList_ofList

theorem isDigit_of_zeros {n : Nat} : ∀ c ∈ List.replicate n '0', Numeral.isDigit c = true := by
  intro c hc
  rw [List.eq_of_mem_replicate hc]
  rfl

/-- Zeros behind the digits of a number are those of a multiple. -/
theorem toDigits_append_zeros {n : Nat} (hn : 0 < n) (k : Nat) :
    Nat.toDigits 10 n ++ List.replicate k '0' = Nat.toDigits 10 (n * 10 ^ k) := by
  induction k with
  | zero => rw [List.replicate_zero, List.append_nil, Nat.pow_zero, Nat.mul_one]
  | succ k ih =>
      have hscaled : 0 < n * 10 ^ k := Nat.mul_pos hn (Nat.pow_pos (by decide))
      have hnext : 10 * (n * 10 ^ k) + 0 = n * 10 ^ (k + 1) := by ring
      rw [List.replicate_succ', ← List.append_assoc, ih, ← hnext,
        ← Nat.toDigits_append_toDigits (by decide) hscaled (by decide), Nat.toDigits_zero]

/-- A literal with digits after the point and without exponent. -/
theorem lays_of_places {whole places : List Char} (hwhole : Whole whole) (hne : places ≠ [])
    (hall : ∀ c ∈ places, Numeral.isDigit c = true) {n : Nat}
    (hn : Nat.ofDigitChars 10 (whole ++ places) 0 = n) :
    Lays (whole ++ '.' :: places) n (-(places.length : Int)) := by
  have hfraction : Fraction (some places) := by
    rintro ds ⟨⟩
    exact ⟨hne, hall⟩
  refine ⟨whole, some places, none, hwhole, hfraction, .inl nofun, ?_, hn, ?_⟩
  · rw [fractionText, exponentText, List.append_nil]
  · rw [Option.getD_none, Option.getD_some, Int.zero_sub]

variable {d : Decimal}

/-- With zeros behind its digits, a decimal gets one behind the point. -/
theorem lays_padded (hpos : 0 < d.digits) (e : Nat) :
    Lays (toString d.digits ++ zeros e ++ ".0").toList (10 ^ 1 * (d.digits * 10 ^ e)) (-1) := by
  have hwhole : Whole (Nat.toDigits 10 (d.digits * 10 ^ e)) :=
    Token.whole_toDigits (d.digits * 10 ^ e)
  have hpoint : ".0".toList = '.' :: List.replicate 1 '0' := rfl
  rw [String.toList_append, String.toList_append, toList_toString, toList_zeros,
    toDigits_append_zeros hpos, hpoint]
  refine @lays_of_places _ (List.replicate 1 '0') hwhole nofun isDigit_of_zeros _ ?_
  rw [Nat.ofDigitChars_append, Nat.ofDigitChars_ten_toDigits]
  exact Nat.ofDigitChars_replicate_zero

/-- Up to sixteen places the digits and the zeros fit 64 bits. -/
theorem padded_lt {e : Nat} (he : d.exponent = e) (hleading : d.leading ≤ 15) :
    d.digits * 10 ^ e < 10 ^ 16 := by
  have hplaces : digitCount d.digits + e ≤ 16 := by
    rw [leading, he] at hleading
    omega
  calc d.digits * 10 ^ e < 10 ^ digitCount d.digits * 10 ^ e :=
        Nat.mul_lt_mul_of_pos_right (Decimal.lt_pow_digitCount d.digits) (Nat.pow_pos (by decide))
    _ = 10 ^ (digitCount d.digits + e) := (Nat.pow_add ..).symm
    _ ≤ 10 ^ 16 := Nat.pow_le_pow_right (by decide) hplaces

/-- The point stands between the digits. -/
theorem lays_split {n k : Nat} (hn : 0 < n) (hk : 0 < k) (hlt : k < digitCount n) :
    Lays ((Nat.toDigits 10 n).take k ++ '.' :: (Nat.toDigits 10 n).drop k) n
      (-(digitCount n - k : Nat)) := by
  have hne {ds : List Char} (h : 0 < ds.length) : ds ≠ [] := List.length_pos_iff.1 h
  rw [digitCount] at hlt
  rw [digitCount, ← List.length_drop]
  refine lays_of_places (whole_of_toDigits hn (List.take_append_drop ..).symm (hne ?_)) (hne ?_)
    (fun c hc => isDigit_of_toDigits c (List.mem_of_mem_drop hc)) ?_
  · rw [List.length_take]
    omega
  · rw [List.length_drop]
    omega
  · rw [List.take_append_drop, Nat.ofDigitChars_ten_toDigits]

/-- Zeros stand between the point and the digits. -/
theorem lays_small (n k : Nat) :
    Lays (['0'] ++ '.' :: (List.replicate k '0' ++ Nat.toDigits 10 n)) n
      (-(k + digitCount n : Nat)) := by
  have hlength : (List.replicate k '0' ++ Nat.toDigits 10 n).length = k + digitCount n := by
    rw [List.length_append, List.length_replicate, digitCount]
  rw [← hlength]
  refine lays_of_places .zero (by simp [Nat.toDigits_ne_nil]) ?_ ?_
  · intro c hc
    rcases List.mem_append.1 hc with hzero | hdigit
    · rw [List.eq_of_mem_replicate hzero]
      rfl
    · exact isDigit_of_toDigits c hdigit
  · have hzero : Nat.ofDigitChars 10 ['0'] 0 = 0 := rfl
    rw [Nat.ofDigitChars_append, Nat.ofDigitChars_append, Nat.ofDigitChars_replicate_zero, hzero,
      Nat.mul_zero, Nat.ofDigitChars_ten_toDigits]

/-- Without exponent there are digits after the point: those of the decimal, or a zero that makes
    them ten times as much. -/
theorem lays_positional (hpos : 0 < d.digits) :
    ∃ n power, Lays (layoutPositional true d).toList n power ∧ power < 0 ∧
      (n : ℚ) * 10 ^ power = d.value ∧
      (n = d.digits ∨ ∃ e : Nat, d.exponent = e ∧ n = 10 ^ 1 * (d.digits * 10 ^ e)) := by
  have hlength : (toString d.digits).length = digitCount d.digits := by
    rw [← String.length_toList, toList_toString, digitCount]
  have hcount := Decimal.digitCount_pos d.digits
  simp only [layoutPositional, Decimal.value]
  split
  · rename_i hexponent
    obtain ⟨e, he⟩ := Int.eq_ofNat_of_zero_le hexponent
    have hnat : d.exponent.toNat = e := by omega
    rw [hnat]
    refine ⟨_, _, lays_padded hpos e, by decide, ?_, .inr ⟨e, he, rfl⟩⟩
    rw [he, zpow_natCast]
    push_cast
    norm_num
    ring
  · rename_i hexponent
    have hplaces : d.exponent = -(d.exponent.natAbs : Int) := by omega
    refine ⟨d.digits, d.exponent, ?_, by omega, rfl, .inl rfl⟩
    rw [hlength]
    split
    · rename_i hlt
      have hpoint : ".".toList = ['.'] := rfl
      have hpower : d.exponent =
          -((digitCount d.digits - (digitCount d.digits - d.exponent.natAbs) : Nat) : Int) := by
        omega
      conv_rhs => rw [hpower]
      rw [String.toList_append, String.toList_append, hpoint, String.toList_ofList,
        String.toList_ofList, List.append_assoc, toList_toString, ← digitCount]
      exact lays_split hpos (by omega) (by omega)
    · have hpower : d.exponent =
          -((d.exponent.natAbs - digitCount d.digits + digitCount d.digits : Nat) : Int) := by
        omega
      conv_rhs => rw [hpower]
      rw [String.toList_append, String.toList_append, toList_zeros, toList_toString,
        List.append_assoc]
      exact lays_small d.digits _

/-- The digits after the first one stand behind the point; without any there is no point. -/
theorem toList_layoutScientific {c : Char} {cs : List Char}
    (hdigits : Nat.toDigits 10 d.digits = c :: cs) :
    (layoutScientific d).toList =
      [c] ++
        (fractionText (if cs = [] then none else some cs) ++ exponentText (some d.leading)) := by
  have hexponent : "e".toList ++ ((if 0 ≤ d.leading then "+" else "-").toList ++
      Nat.toDigits 10 d.leading.natAbs) = exponentText (some d.leading) := by
    rw [exponentText]
    split <;> rfl
  have hhead : (String.singleton c).toList = [c] := String.toList_singleton c
  rw [← hexponent]
  simp only [layoutScientific, toList_toString, String.toList_append, List.append_assoc, hdigits]
  cases cs with
  | nil => rw [hhead]; rfl
  | cons c' cs =>
      have hpoint : ".".toList = ['.'] := rfl
      rw [hhead, String.toList_append, hpoint, String.toList_ofList]
      rfl

/-- With an exponent the digits are scaled by the power of ten of the decimal itself. -/
theorem lays_scientific (hpos : 0 < d.digits) :
    Lays (layoutScientific d).toList d.digits d.exponent := by
  obtain ⟨c, cs, hdigits, -⟩ := Numeral.toDigits_eq_cons hpos
  obtain ⟨fraction, hf⟩ :
      ∃ fraction : Option (List Char), fraction = if cs = [] then none else some cs := ⟨_, rfl⟩
  have hplaces : fraction.getD [] = cs := by
    rw [hf]
    split
    · rename_i hnil
      exact hnil.symm
    · rfl
  have hfraction : Fraction fraction := by
    rw [hf]
    split
    · nofun
    · rename_i hne
      rintro ds ⟨⟩
      refine ⟨hne, fun c' hc => isDigit_of_toDigits (n := d.digits) c' ?_⟩
      rw [hdigits]
      exact List.mem_cons_of_mem c hc
  have hnumber : Nat.ofDigitChars 10 ([c] ++ fraction.getD []) 0 = d.digits := by
    rw [hplaces, List.singleton_append, ← hdigits, Nat.ofDigitChars_ten_toDigits]
  -- The exponent is that of the first digit, and the places behind the point lower it to the last.
  have hpower : (some d.leading).getD 0 - ((fraction.getD []).length : Int) = d.exponent := by
    have hcount : digitCount d.digits = cs.length + 1 := by
      rw [digitCount, hdigits, List.length_cons]
    rw [hplaces, Option.getD_some, leading, hcount]
    omega
  have hwhole : Whole [c] := whole_of_toDigits hpos hdigits (List.cons_ne_nil c [])
  rw [toList_layoutScientific hdigits, ← hf]
  exact ⟨_, _, _, hwhole, hfraction, .inr (Option.some_ne_none _), rfl, hnumber, hpower.symm⟩

end Layouts

/-! ### Floats -/

theorem isSome_scale?_of_neg {power : Int} (h : power < 0) (n : Nat) :
    (scale? n power).isSome = true := by
  simp only [scale?]
  rw [if_pos h]
  rfl

/-- The shortest decimal of a finite float is laid out as a literal of its value, which is read as
    a float. -/
theorem lays_shortest {x : Float} (hfinite : x.isFinite = true) :
    ∃ n power, Lays (floatStyle.write (.shortest x)).toList n power ∧
      (n : ℚ) * 10 ^ power = (Decimal.shortest x).value ∧ n < Nat.pow 2 64 ∧
      (scale? n power).isSome = true := by
  rcases Decimal.shortest_spec x with hzero | ⟨hpos, hdigits, -⟩
  · have htext : (floatStyle.write ⟨0, 0⟩).toList = ['0'] ++ '.' :: ['0'] := by decide
    rw [hzero, htext]
    have hlays : Lays (['0'] ++ '.' :: ['0']) 0 (-1) :=
      @lays_of_places ['0'] (List.replicate 1 '0') .zero nofun isDigit_of_zeros 0 rfl
    refine ⟨0, -1, hlays, ?_, by decide, isSome_scale?_of_neg (by decide) 0⟩
    simp [Decimal.value]
  · have hfits : (Decimal.shortest x).digits < Nat.pow 2 64 :=
      Nat.lt_of_le_of_lt hdigits (by decide)
    show ∃ n power, Lays (if -5 ≤ (Decimal.shortest x).leading ∧
      (Decimal.shortest x).leading ≤ 15 then _ else _ : String).toList n power ∧ _
    split
    · rename_i hleading
      obtain ⟨n, power, hlays, hneg, hvalue, hn⟩ := lays_positional hpos
      refine ⟨n, power, hlays, hvalue, ?_, isSome_scale?_of_neg hneg n⟩
      rcases hn with rfl | ⟨e, he, rfl⟩
      · exact hfits
      · have hscaled := padded_lt he hleading.2
        have hpow : Nat.pow 2 64 = 18446744073709551616 := rfl
        omega
    · refine ⟨_, _, lays_scientific hpos, rfl, hfits, ?_⟩
      by_cases hexponent : (Decimal.shortest x).exponent < 0
      · exact isSome_scale?_of_neg hexponent _
      · obtain ⟨e, he⟩ := Int.eq_ofNat_of_zero_le (Int.not_lt.1 hexponent)
        rw [he]
        exact Decimal.scale?_shortest hfinite hpos he

namespace Number

/-- The sign in front of a literal. -/
def signMark (negative : Bool) : List Char := if negative then ['-'] else []

/-- What does not begin with a sign can be told from the sign in front of it. -/
theorem signMark_append_inj {b b' : Bool} {w w' : List Char} (hw : ∀ rest, w ≠ '-' :: rest)
    (hw' : ∀ rest, w' ≠ '-' :: rest) (h : signMark b ++ w = signMark b' ++ w') :
    b = b' ∧ w = w' := by
  cases b <;> cases b'
  · exact ⟨rfl, h⟩
  · exact absurd h (hw w')
  · exact absurd h.symm (hw' w)
  · exact ⟨rfl, (List.cons.inj h).2⟩

/-- The text of a finite float is its sign and its shortest decimal. -/
theorem toList_text_float {x : Float} (hfinite : x.isFinite = true) :
    (float x).text.toList =
      signMark (Decimal.isNegative x) ++ (floatStyle.write (.shortest x)).toList := by
  rw [text, if_pos hfinite, Decimal.Style.text, String.toList_append, signMark]
  split <;> rfl

theorem toList_text_int (n : Int) :
    (int n).text.toList = signMark (n < 0) ++ Nat.toDigits 10 n.natAbs := by
  rw [text, Int.toString_eq_repr, Int.repr_eq_if, signMark]
  by_cases hn : 0 ≤ n
  · have hnat : n.toNat = n.natAbs := by omega
    rw [if_pos hn, if_neg (by simpa using hn), Nat.toList_repr, hnat]
    rfl
  · have hnat : (-n).toNat = n.natAbs := by omega
    rw [if_neg hn, if_pos (by simpa using hn), String.toList_append, Nat.toList_repr, hnat]
    rfl

theorem toDigits_ne_minus (n : Nat) (rest : List Char) : Nat.toDigits 10 n ≠ '-' :: rest := by
  intro h
  have hdigit : Numeral.isDigit '-' = true :=
    isDigit_of_toDigits '-' (h ▸ List.mem_cons_self)
  revert hdigit
  decide

/-- The text of a finite float is a literal for a float. -/
theorem isLiteral_float {x : Float} (hfinite : x.isFinite = true) : (float x).IsLiteral := by
  obtain ⟨n, power, hlays, -, hfits, hsome⟩ := lays_shortest hfinite
  obtain ⟨z, hz⟩ := Option.isSome_iff_exists.1 hsome
  have hscan (negative : Bool) :
      Token.scanUnsigned negative (floatStyle.write (.shortest x)).toList =
        some (some (.float (if negative then -z else z)), []) := by
    rw [hlays.scan hfits negative, hz]
    rfl
  cases hsign : Decimal.isNegative x with
  | true =>
      refine ⟨.float (-z), ?_⟩
      rw [toList_text_float hfinite, hsign]
      exact hscan true
  | false =>
      refine ⟨.float z, ?_⟩
      rw [toList_text_float hfinite, hsign]
      exact Token.scanNumber_of_scanUnsigned (hscan false)

/-- Finite floats that are written alike are one float. -/
theorem float_text_inj {x y : Float} (hx : x.isFinite = true) (hy : y.isFinite = true)
    (h : (float x).text.toList = (float y).text.toList) : x = y := by
  obtain ⟨n, power, hlays, hvalue, -⟩ := lays_shortest hx
  obtain ⟨n', power', hlays', hvalue', -⟩ := lays_shortest hy
  rw [toList_text_float hx, toList_text_float hy] at h
  obtain ⟨hsign, hbody⟩ := signMark_append_inj hlays.ne_minus hlays'.ne_minus h
  rw [hbody] at hlays
  obtain ⟨rfl, rfl⟩ := hlays.unique hlays'
  exact Decimal.eq_of_mantissaExponent hsign
    (Decimal.mantissaExponent_of_shortest hx hy (hvalue.symm.trans hvalue'))

theorem int_text_inj {n m : Int} (h : (int n).text.toList = (int m).text.toList) : n = m := by
  rw [toList_text_int, toList_text_int] at h
  obtain ⟨hsign, hdigits⟩ := signMark_append_inj (toDigits_ne_minus _) (toDigits_ne_minus _) h
  have hvalue := congrArg (Nat.ofDigitChars 10 · 0) hdigits
  simp only [Nat.ofDigitChars_ten_toDigits] at hvalue
  have hsign := decide_eq_decide.1 hsign
  omega

/-- The text of a float has a point or an exponent, and that of an integer has not. -/
theorem int_text_ne_float {n : Int} {x : Float} (hfinite : x.isFinite = true) :
    (int n).text.toList ≠ (float x).text.toList := by
  obtain ⟨m, power, hlays, -⟩ := lays_shortest hfinite
  intro h
  rw [toList_text_int, toList_text_float hfinite] at h
  obtain ⟨-, hdigits⟩ := signMark_append_inj (toDigits_ne_minus _) hlays.ne_minus h
  exact hlays.ne_toDigits _ hdigits.symm

/-- `null` is not a literal for a number. -/
theorem IsLiteral.text_ne_null {n : Number} (h : n.IsLiteral) : n.text ≠ "null" := by
  obtain ⟨m, hm⟩ := h
  intro hnull
  have hnone : Token.scanNumber "null".toList = none := rfl
  rw [hnull, hnone] at hm
  cases hm

theorem IsLiteral.isFinite {x : Float} (h : (float x).IsLiteral) : x.isFinite = true := by
  by_contra hfinite
  exact h.text_ne_null (if_neg hfinite)

/-- Numbers that are written alike are one number. -/
theorem text_inj {n m : Number} (hn : n.IsLiteral) (hm : m.IsLiteral)
    (h : n.text.toList = m.text.toList) : n = m := by
  cases n with
  | int n =>
      cases m with
      | int m => exact congrArg int (int_text_inj h)
      | float y => exact absurd h (int_text_ne_float hm.isFinite)
  | float x =>
      cases m with
      | int m => exact absurd h.symm (int_text_ne_float hn.isFinite)
      | float y => exact congrArg float (float_text_inj hn.isFinite hm.isFinite h)

end Number

end Parley.Json
