/-
  Parley.Proofs.Value.Whole

  Which numbers are written as integers. A finite number is found to be the integer `n` exactly
  if it stands for `n` and `n` is in the range of 64-bit signed integers
  (`Value.whole?_eq_some_iff`).
-/
import Mathlib
import Parley.Value
import Parley.Proofs.Number.Binary64

namespace Parley.Value

open Binary64 (Normal normal sign toRat scaled_eq_iff)
open Decimal (mantissaExponent isNegative)

/-- Some integer in the range is the number. -/
def IsWhole (x : Float) : Prop :=
  ∃ n : Int, -(Nat.pow 2 63 : Nat) ≤ n ∧ n < (Nat.pow 2 63 : Nat) ∧ toRat x = n

theorem of_whole? {x : Float} {n : Int} (h : whole? x = some n) :
    -(Nat.pow 2 63 : Nat) ≤ n ∧ n < (Nat.pow 2 63 : Nat) ∧ truncated x = n ∧
      (Float.ofInt n == x) = true := by
  rw [whole?] at h
  split at h
  · rename_i hn
    cases h
    exact ⟨hn.1, hn.2.1, rfl, hn.2.2⟩
  · cases h

theorem beq_self_iff {x : Float} : (x == x) = true ↔ x.isNaN = false := by
  rw [Float.beq_self_iff, Float.isNaN_eq_decide_eq_nan, decide_eq_false_iff_not]

theorem beq_self_of_isFinite {x : Float} (h : x.isFinite = true) : (x == x) = true := by
  refine Float.beq_self_iff.2 ?_
  rintro rfl
  exact absurd h (by decide +kernel)

/-! ### Signs -/

/-- A natural number with the sign of a float. -/
def signed (x : Float) (n : Nat) : Int := if isNegative x then -n else n

theorem truncated_eq (x : Float) :
    truncated x = signed x ((mantissaExponent x).1 * 2 ^ (mantissaExponent x).2.toNat /
      2 ^ (-(mantissaExponent x).2).toNat) := rfl

theorem toRat_eq_signed_iff {x : Float} {n : Nat} :
    toRat x = signed x n ↔
      (mantissaExponent x).1 * 2 ^ (mantissaExponent x).2.toNat =
        n * 2 ^ (-(mantissaExponent x).2).toNat := by
  rw [← scaled_eq_iff, toRat, signed]
  split
  · push_cast
    rw [neg_one_mul, neg_inj]
  · rw [one_mul, Int.cast_natCast]

theorem eq_signed_of_toRat {x : Float} {n : Int} (h : toRat x = n) : n = signed x n.natAbs := by
  have hsize : (0 : ℚ) ≤ (mantissaExponent x).1 * 2 ^ (mantissaExponent x).2 := by positivity
  rw [toRat] at h
  rw [signed]
  by_cases hsign : isNegative x = true
  · rw [if_pos hsign] at h ⊢
    have hn : (n : ℚ) ≤ 0 := by linarith
    have hn : n ≤ 0 := by exact_mod_cast hn
    omega
  · rw [if_neg hsign] at h ⊢
    have hn : (0 : ℚ) ≤ n := by linarith
    have hn : 0 ≤ n := by exact_mod_cast hn
    omega

theorem ofInt_neg {n : Nat} (hn : 0 < n) : Float.ofInt (-(n : Int)) = -Float.ofNat n := by
  obtain ⟨k, rfl⟩ := Nat.exists_eq_succ_of_ne_zero hn.ne'
  rfl

theorem ofInt_signed {x : Float} {m n : Nat} {q : Int} (h : Normal m q)
    (hvalue : m * 2 ^ q.toNat = n * 2 ^ (-q).toNat) :
    Float.ofInt (signed x n) = normal (sign x) m q h := by
  have hn : 0 < n := by
    have hleft : 0 < m * 2 ^ q.toNat := Nat.mul_pos h.pos (Nat.two_pow_pos _)
    rw [hvalue] at hleft
    exact Nat.pos_of_mul_pos_right hleft
  have hnat : Float.ofNat n = normal .positive m q h := Binary64.ofNat_exact h hvalue
  rw [signed, sign]
  split
  · rw [ofInt_neg hn, hnat, Binary64.neg_normal]
    rfl
  · exact hnat

/-! ### Zeros and numbers next to them -/

theorem mantissa_of_zero {x : Float} (h : x = 0 ∨ x = -0) : (mantissaExponent x).1 = 0 := by
  rcases h with rfl | rfl <;> decide +kernel

theorem toRat_of_zero {x : Float} (h : x = 0 ∨ x = -0) : toRat x = 0 := by
  rw [toRat, mantissa_of_zero h, Nat.cast_zero, zero_mul, mul_zero]

theorem zero_of_beq {x : Float} (h : (Float.ofInt 0 == x) = true) : x = 0 ∨ x = -0 := by
  obtain ⟨-, -, rfl | ⟨-, rfl⟩ | ⟨-, rfl⟩⟩ := Float.beq_iff_ne_nan_and_eq.1 h
  · exact .inl rfl
  · exact .inr rfl
  · exact .inl rfl

/-- With the least exponent, a mantissa that is not full is a fraction of 1. -/
theorem tiny_lt {m : Nat} (hlt : m < 2 ^ 52) : m < 2 ^ (-(-1074 : Int)).toNat :=
  hlt.trans_le (Nat.pow_le_pow_right (by decide) (by decide))

theorem ne_mul_of_lt {m n b : Nat} (hpos : 0 < m) (hlt : m < b) : m ≠ n * b := by
  rintro rfl
  have hn : 0 < n := Nat.pos_of_mul_pos_right hpos
  exact absurd hlt (Nat.not_lt.2 (Nat.le_mul_of_pos_left b hn))

/-! ### Whole numbers -/

theorem truncated_of_toRat {x : Float} {n : Int} (h : toRat x = n) : truncated x = n := by
  have hsigned := eq_signed_of_toRat h
  rw [hsigned] at h
  rw [truncated_eq, toRat_eq_signed_iff.1 h, Nat.mul_div_cancel _ (Nat.two_pow_pos _), ← hsigned]

theorem ofInt_beq_of_toRat {x : Float} {n : Int} (hfinite : x.isFinite = true)
    (h : toRat x = n) : (Float.ofInt n == x) = true := by
  have hsigned := eq_signed_of_toRat h
  have hvalue : (mantissaExponent x).1 * 2 ^ (mantissaExponent x).2.toNat =
      n.natAbs * 2 ^ (-(mantissaExponent x).2).toNat := by
    rw [← toRat_eq_signed_iff, ← hsigned]
    exact h
  rcases Binary64.finite_cases hfinite with hzero | ⟨hpos, hlt, hleast⟩ | hnormal
  · have hn : n = 0 := by
      rw [toRat_of_zero hzero] at h
      exact_mod_cast h.symm
    rw [hn]
    rcases hzero with rfl | rfl <;> decide +kernel
  · exfalso
    have hleft : (-1074 : Int).toNat = 0 := rfl
    rw [hleast, hleft, Nat.pow_zero, Nat.mul_one] at hvalue
    exact ne_mul_of_lt hpos (tiny_lt hlt) hvalue
  · have hx : Float.ofInt n = x := by
      rw [hsigned, ofInt_signed hnormal hvalue, ← Binary64.eq_normal hnormal]
    rw [hx]
    exact beq_self_of_isFinite hfinite

/-- A normal float had no fraction if its truncation is converted to an equal float: what was
    cut to less than 2^53 is converted exactly, so nothing was cut. -/
theorem truncation_exact {x : Float} {n : Nat}
    (h : Normal (mantissaExponent x).1 (mantissaExponent x).2) (hpos : 0 < n)
    (hn : n = (mantissaExponent x).1 * 2 ^ (mantissaExponent x).2.toNat /
      2 ^ (-(mantissaExponent x).2).toNat)
    (hbeq : (Float.ofInt (signed x n) == x) = true) :
    (mantissaExponent x).1 * 2 ^ (mantissaExponent x).2.toNat =
      n * 2 ^ (-(mantissaExponent x).2).toNat := by
  rcases Int.le_total 0 (mantissaExponent x).2 with hnonneg | hneg
  · have hright : (-(mantissaExponent x).2).toNat = 0 := by omega
    rw [hright, Nat.pow_zero, Nat.div_one] at hn
    rw [hright, Nat.pow_zero, Nat.mul_one, hn]
  · have hleft : (mantissaExponent x).2.toNat = 0 := by omega
    rw [hleft, Nat.pow_zero, Nat.mul_one] at hn ⊢
    have hlt : n < 2 ^ 53 := by
      rw [hn]
      exact (Nat.div_le_self _ _).trans_lt h.high
    obtain ⟨m, q, hnormal, hq, hm⟩ := Binary64.exists_normal hpos hlt
    have hvalue : m * 2 ^ q.toNat = n * 2 ^ (-q).toNat := by
      have hleft : q.toNat = 0 := by omega
      rw [hleft, Nat.pow_zero, Nat.mul_one, hm]
    have hsame : (normal (sign x) m q hnormal == normal (sign x) _ _ h) = true := by
      rw [← ofInt_signed hnormal hvalue, ← Binary64.eq_normal h]
      exact hbeq
    obtain ⟨-, hmantissa, hexponent⟩ := Binary64.normal_inj hsame
    rw [← hmantissa, ← hexponent]
    exact hm

theorem toRat_of_whole? {x : Float} {n : Int} (hfinite : x.isFinite = true)
    (h : whole? x = some n) : toRat x = n := by
  obtain ⟨-, -, htruncated, hbeq⟩ := of_whole? h
  by_cases hn : n = 0
  · rw [hn] at hbeq ⊢
    exact_mod_cast toRat_of_zero (zero_of_beq hbeq)
  rw [truncated_eq] at htruncated
  have hnonzero : (mantissaExponent x).1 * 2 ^ (mantissaExponent x).2.toNat /
      2 ^ (-(mantissaExponent x).2).toNat ≠ 0 := by
    intro hzero
    rw [hzero] at htruncated
    exact hn (htruncated.symm.trans (by simp [signed]))
  rw [← htruncated, toRat_eq_signed_iff]
  rcases Binary64.finite_cases hfinite with hzero | ⟨hpos, hlt, hleast⟩ | hnormal
  · exact absurd (by rw [mantissa_of_zero hzero, Nat.zero_mul, Nat.zero_div]) hnonzero
  · refine absurd ?_ hnonzero
    have hleft : (-1074 : Int).toNat = 0 := rfl
    rw [hleast, hleft, Nat.pow_zero, Nat.mul_one]
    exact Nat.div_eq_of_lt (tiny_lt hlt)
  · exact truncation_exact hnormal (Nat.pos_of_ne_zero hnonzero) rfl (by rwa [htruncated])

/-- The integer that is found is the number itself, and it is found wherever there is one. -/
theorem whole?_eq_some_iff {x : Float} {n : Int} (hfinite : x.isFinite = true) :
    whole? x = some n ↔
      -(Nat.pow 2 63 : Nat) ≤ n ∧ n < (Nat.pow 2 63 : Nat) ∧ toRat x = n := by
  constructor
  · intro h
    obtain ⟨hlow, hhigh, -⟩ := of_whole? h
    exact ⟨hlow, hhigh, toRat_of_whole? hfinite h⟩
  · rintro ⟨hlow, hhigh, h⟩
    have htruncated := truncated_of_toRat h
    simp only [whole?, htruncated]
    rw [if_pos ⟨hlow, hhigh, ofInt_beq_of_toRat hfinite h⟩]

theorem whole?_eq_none_iff {x : Float} (hfinite : x.isFinite = true) :
    whole? x = none ↔ ¬ IsWhole x := by
  rw [Option.eq_none_iff_forall_not_mem, IsWhole, not_exists]
  exact forall_congr' fun n => not_congr (whole?_eq_some_iff hfinite)

end Parley.Value
