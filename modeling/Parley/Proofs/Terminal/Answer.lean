/-
  Parley.Proofs.Terminal.Answer

  What a typed line says. It quits if it holds `q`, and it is an option if it holds a spelling of a
  number, which is the decimal digits with some zeros and perhaps a plus sign in front
  (`ofLine_eq_quit_iff`, `ofLine_eq_option_iff`). The digits of a number spell no other number,
  since they are made of its value again (`eq_zeros_append`).
-/
import Parley.Proofs.Json.Token
import Parley.Proofs.Text.Blank
import Parley.Terminal.Player

namespace Parley

/-! ### Spellings of a number -/

namespace Json.Numeral

theorem isDigit_iff {c : Char} : isDigit c = true ↔ 48 ≤ c.toNat ∧ c.toNat ≤ 57 := by
  simp [isDigit, Char.le_def, UInt32.le_iff_toNat_le]

theorem digitChar_digitValue {c : Char} (h : isDigit c = true) :
    digitValue c < 10 ∧ (digitValue c).digitChar = c := by
  rw [isDigit_iff] at h
  have hvalue : digitValue c = c.toNat - 48 := rfl
  refine ⟨by omega, Char.toNat_inj.1 ?_⟩
  rw [Nat.toNat_digitChar_of_lt_ten (by omega)]
  omega

/-- Digits behind the digits of a positive number go on with it. -/
theorem toDigits_append {n : Nat} (hn : 0 < n) {ds : List Char}
    (hds : ∀ c ∈ ds, isDigit c = true) :
    Nat.toDigits 10 n ++ ds = Nat.toDigits 10 (Nat.ofDigitChars 10 ds n) := by
  induction ds generalizing n with
  | nil => simp
  | cons c ds ih =>
      obtain ⟨hlt, hchar⟩ := digitChar_digitValue (hds c List.mem_cons_self)
      have hnext : Nat.toDigits 10 n ++ [c] = Nat.toDigits 10 (10 * n + digitValue c) := by
        rw [← Nat.toDigits_append_toDigits (by decide) hn hlt, Nat.toDigits_of_lt_base hlt, hchar]
      rw [Nat.ofDigitChars_cons]
      calc Nat.toDigits 10 n ++ c :: ds
          = Nat.toDigits 10 n ++ [c] ++ ds := by rw [List.append_assoc, List.singleton_append]
        _ = Nat.toDigits 10 (10 * n + digitValue c) ++ ds := by rw [hnext]
        _ = _ := ih (by omega) fun d hd => hds d (List.mem_cons_of_mem c hd)

/-- Digits are the digits of their number behind some zeros. -/
theorem eq_zeros_append {ds : List Char} (hne : ds ≠ []) (hds : ∀ c ∈ ds, isDigit c = true) :
    ∃ zeros, ds = List.replicate zeros '0' ++ Nat.toDigits 10 (digitsValue ds) := by
  induction ds with
  | nil => exact absurd rfl hne
  | cons c ds ih =>
      obtain ⟨hlt, hchar⟩ := digitChar_digitValue (hds c List.mem_cons_self)
      have hrest : ∀ d ∈ ds, isDigit d = true := fun d hd => hds d (List.mem_cons_of_mem c hd)
      have hvalue : digitsValue (c :: ds) = Nat.ofDigitChars 10 ds (digitValue c) := by
        rw [digitsValue_eq, Nat.ofDigitChars_cons, Nat.mul_zero, Nat.zero_add]
        rfl
      have hone : [c] = Nat.toDigits 10 (digitValue c) := by
        rw [Nat.toDigits_of_lt_base hlt, hchar]
      by_cases hzero : digitValue c = 0
      · obtain rfl : '0' = c := by rw [← hchar, hzero]; rfl
        rw [hzero, ← digitsValue_eq] at hvalue
        rw [hvalue]
        by_cases hnil : ds = []
        · subst hnil
          exact ⟨0, rfl⟩
        · obtain ⟨zeros, hzeros⟩ := ih hnil hrest
          exact ⟨zeros + 1, by rw [List.replicate_succ, List.cons_append, ← hzeros]⟩
      · refine ⟨0, ?_⟩
        rw [hvalue, ← toDigits_append (by omega) hrest, ← hone]
        rfl

theorem digitsValue_zeros_append (zeros n : Nat) :
    digitsValue (List.replicate zeros '0' ++ Nat.toDigits 10 n) = n := by
  rw [digitsValue_eq, Nat.ofDigitChars_append, Nat.ofDigitChars_replicate_zero,
    Nat.mul_zero, Nat.ofDigitChars_ten_toDigits]

end Json.Numeral

namespace Terminal

open Json.Numeral (isDigit digitsValue)
open Text (Holds Bare isBlank trim_eq_iff)

/-- The spellings of a number: its decimal digits, with any zeros in front of them, and with or
    without a plus sign in front of those. -/
inductive Spells (k : Nat) : List Char → Prop
  | plain (zeros : Nat) : Spells k (List.replicate zeros '0' ++ Nat.toDigits 10 k)
  | signed (zeros : Nat) : Spells k ('+' :: (List.replicate zeros '0' ++ Nat.toDigits 10 k))

theorem isDigit_of_zeros_append {zeros n : Nat} :
    ∀ c ∈ List.replicate zeros '0' ++ Nat.toDigits 10 n, isDigit c = true := by
  intro c hc
  rcases List.mem_append.1 hc with hc | hc
  · rw [List.eq_of_mem_replicate hc]
    rfl
  · exact Json.Token.isDigit_of_toDigits c hc

theorem isBlank_of_isDigit {c : Char} (h : isDigit c = true) : isBlank c = false := by
  rw [Json.Numeral.isDigit_iff] at h
  simp [isBlank]
  omega

/-- There is no white space in digits, nor at the ends of a spelling. -/
theorem bare_of_isDigit {ds : List Char} (hne : ds ≠ []) (hds : ∀ c ∈ ds, isDigit c = true) :
    Bare ds := by
  refine ⟨⟨ds.head hne, List.head?_eq_some_head hne, ?_⟩,
    ⟨ds.getLast hne, List.getLast?_eq_some_getLast hne, ?_⟩⟩
  · exact isBlank_of_isDigit (hds _ (List.head_mem hne))
  · exact isBlank_of_isDigit (hds _ (List.getLast_mem hne))

theorem zeros_append_ne_nil (zeros n : Nat) :
    List.replicate zeros '0' ++ Nat.toDigits 10 n ≠ [] :=
  List.append_ne_nil_of_right_ne_nil _ Nat.toDigits_ne_nil

theorem Spells.bare {k : Nat} {cs : List Char} (h : Spells k cs) : Bare cs := by
  cases h with
  | plain zeros => exact bare_of_isDigit (zeros_append_ne_nil zeros k) isDigit_of_zeros_append
  | signed zeros =>
      have hne := zeros_append_ne_nil zeros k
      obtain ⟨-, c, hc, hblank⟩ := bare_of_isDigit hne isDigit_of_zeros_append
      exact ⟨⟨'+', rfl, rfl⟩, c, by rw [List.getLast?_cons_of_ne_nil hne]; exact hc, hblank⟩

/-- The number of some digits, if it can be typed. -/
def digits? (ds : List Char) : Option Nat :=
  if ds ≠ [] ∧ ds.all isDigit then
    if digitsValue ds < Nat.pow 2 64 then some (digitsValue ds) else none
  else none

/-- What is behind the plus sign, if there is one. -/
def unsigned : List Char → List Char
  | '+' :: rest => rest
  | cs => cs

theorem number?_eq (cs : List Char) : number? cs = digits? (unsigned cs) := rfl

theorem unsigned_of_isDigit {ds : List Char} (hds : ∀ c ∈ ds, isDigit c = true) :
    unsigned ds = ds := by
  unfold unsigned
  split
  · have hplus : isDigit '+' = true := hds '+' List.mem_cons_self
    cases hplus
  · rfl

theorem spells_iff {k : Nat} {cs : List Char} :
    Spells k cs ↔ ∃ zeros, unsigned cs = List.replicate zeros '0' ++ Nat.toDigits 10 k := by
  constructor
  · intro h
    cases h with
    | plain zeros => exact ⟨zeros, unsigned_of_isDigit isDigit_of_zeros_append⟩
    | signed zeros => exact ⟨zeros, rfl⟩
  · rintro ⟨zeros, h⟩
    unfold unsigned at h
    split at h
    · rw [h]
      exact .signed zeros
    · rw [h]
      exact .plain zeros

theorem digits?_eq_some_iff {ds : List Char} {k : Nat} :
    digits? ds = some k ↔
      k < Nat.pow 2 64 ∧ ∃ zeros, ds = List.replicate zeros '0' ++ Nat.toDigits 10 k := by
  unfold digits?
  constructor
  · intro h
    split at h
    · rename_i hdigits
      split at h
      · rename_i hfits
        obtain rfl := Option.some.inj h
        exact ⟨hfits, Json.Numeral.eq_zeros_append hdigits.1 (List.all_eq_true.1 hdigits.2)⟩
      · cases h
    · cases h
  · rintro ⟨hfits, zeros, rfl⟩
    rw [if_pos ⟨zeros_append_ne_nil zeros k, List.all_eq_true.2 isDigit_of_zeros_append⟩,
      Json.Numeral.digitsValue_zeros_append, if_pos hfits]

/-- The numbers below 2^64 are typed by their spellings, and nothing else types them. -/
theorem number?_eq_some_iff {cs : List Char} {k : Nat} :
    number? cs = some k ↔ k < Nat.pow 2 64 ∧ Spells k cs := by
  rw [number?_eq, digits?_eq_some_iff, spells_iff]

/-! ### Answers -/

/-- The line is `q`. -/
def Quits (line : String) : Prop := Holds line ['q']

theorem bare_q : Bare ['q'] := ⟨⟨'q', rfl, by decide⟩, 'q', rfl, by decide⟩

theorem not_holds_empty {cs : List Char} (hbare : Bare cs) : ¬ Holds "" cs := by
  intro h
  rw [← trim_eq_iff hbare] at h
  exact hbare.ne_nil h.symm

theorem ofLine_eq_quit_iff {line : String} : Answer.ofLine line = .quit ↔ Quits line := by
  have hq : Text.trim line = "q" ↔ Quits line := by
    rw [Quits, ← trim_eq_iff bare_q, ← String.toList_inj]
    rfl
  rw [← hq]
  unfold Answer.ofLine
  grind

theorem ofLine_eq_option {line : String} {index : Nat} :
    Answer.ofLine line = .option index ↔
      number? (Text.trim line).toList = some (index + 1) := by
  -- The empty text and `q` are answers of their own, and neither is a number.
  have hempty : number? "".toList = none := by decide
  have hq : number? "q".toList = none := by decide
  simp only [Answer.ofLine]
  split_ifs with h h'
  · rw [h, hempty]
    simp
  · rw [h', hq]
    simp
  · cases number? (Text.trim line).toList with
    | none => simp
    | some n => cases n <;> simp

theorem ofLine_eq_option_iff {line : String} {index : Nat} :
    Answer.ofLine line = .option index ↔
      index + 1 < Nat.pow 2 64 ∧ ∃ cs, Holds line cs ∧ Spells (index + 1) cs := by
  rw [ofLine_eq_option, number?_eq_some_iff]
  refine and_congr_right fun _ => ⟨fun h => ⟨_, Text.holds_trim line, h⟩, ?_⟩
  rintro ⟨cs, hholds, hspells⟩
  rwa [(trim_eq_iff hspells.bare).2 hholds]

end Terminal

end Parley
