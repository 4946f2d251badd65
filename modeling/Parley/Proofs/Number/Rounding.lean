/-
  Parley.Proofs.Number.Rounding

  How far rounding can lift a number. To round is to shift the mantissa to its full width and
  to go to the nearer neighbour, so the result exceeds the exact number by at most half of the
  last place, a factor of `1 + 2^-53` (`round_normal`). A literal goes through three roundings at
  most: its digits, the power of ten, and their product. So a literal that stays below the
  greatest float by these factors is a float and not beyond the largest (`scale?_isSome`).
-/
import Mathlib
import Parley.Json.Numeral
import Parley.Proofs.Number.Binary64

namespace Parley.Binary64

open Float.Model (Format UnpackedFloat totalExponent)
open Float.Model.UnpackedFloat (Sign ExtendedMantissa Accuracy shiftToExponent
  shiftToTargetExponent roundWithAccuracy)

variable {m n : Nat} {q : Int}

/-! ### One rounding -/

/-- The greatest factor by which rounding lifts a number. -/
def lift : ℚ := 1 + 1 / 2 ^ 53

theorem shiftRight_succ (em : ExtendedMantissa) (k : Nat) :
    em >>> (k + 1) = (em >>> k).shiftRightOne := rfl

theorem mantissa_shiftRight (em : ExtendedMantissa) (k : Nat) :
    (em >>> k).mantissa = em.mantissa / 2 ^ k := by
  induction k with
  | zero => exact (Nat.div_one _).symm
  | succ k ih =>
      rw [shiftRight_succ, ExtendedMantissa.shiftRightOne, ih, Nat.div_div_eq_div_mul,
        Nat.pow_succ]

/-- Rounding takes the mantissa or the next one, and the next one only if at least one half was
    cut off. -/
theorem roundedMantissa_bounds (em : ExtendedMantissa) :
    em.mantissa ≤ em.roundedMantissa ∧
      em.roundedMantissa ≤ em.mantissa + if em.roundBit then 1 else 0 := by
  obtain ⟨mantissa, roundBit, stickyBit⟩ := em
  cases roundBit <;> cases stickyBit <;>
    simp only [ExtendedMantissa.roundedMantissa, ExtendedMantissa.accuracy,
      Accuracy.roundToNearestEven, if_true, Bool.false_eq_true, if_false] <;>
    omega

/-- What is rounded up was cut by at least one half: twice the error is at most one place. -/
theorem roundedMantissa_le (m k : Nat) :
    2 * (((⟨m, false, false⟩ : ExtendedMantissa) >>> k).roundedMantissa * 2 ^ k) ≤
      2 * m + 2 ^ k := by
  obtain ⟨-, hupper⟩ := roundedMantissa_bounds ((⟨m, false, false⟩ : ExtendedMantissa) >>> k)
  cases k with
  | zero =>
      have hrounded : ((⟨m, false, false⟩ : ExtendedMantissa) >>> 0).roundedMantissa ≤ m := hupper
      omega
  | succ k =>
      -- The bit that is cut off last decides; what is left below it only helps.
      have hbit : (((⟨m, false, false⟩ : ExtendedMantissa) >>> (k + 1)).roundBit = true) ↔
          m / 2 ^ k % 2 = 1 := by
        rw [shiftRight_succ, ExtendedMantissa.shiftRightOne, mantissa_shiftRight]
        simp
      have hquotient : m / 2 ^ k * 2 ^ k ≤ m := Nat.div_mul_le_self m (2 ^ k)
      have hhalf : m / 2 ^ (k + 1) = m / 2 ^ k / 2 := by
        rw [Nat.pow_succ, Nat.div_div_eq_div_mul]
      rw [mantissa_shiftRight] at hupper
      generalize ((⟨m, false, false⟩ : ExtendedMantissa) >>> (k + 1)).roundedMantissa = r at *
      have hrounded : 2 * r ≤ m / 2 ^ k + 1 := by
        simp only [hhalf] at hupper
        split at hupper
        · rename_i hup
          have hodd := hbit.1 hup
          omega
        · omega
      calc 2 * (r * 2 ^ (k + 1)) = 2 * r * 2 ^ k * 2 := by ring
        _ ≤ (m / 2 ^ k + 1) * 2 ^ k * 2 := by gcongr
        _ = 2 * (m / 2 ^ k * 2 ^ k) + 2 ^ (k + 1) := by ring
        _ ≤ 2 * m + 2 ^ (k + 1) := by omega

/-- Rounded to 53 bits, a mantissa has its full width, or it is the next power of two. -/
theorem roundedMantissa_full {k : Nat} (hlow : 2 ^ 52 * 2 ^ k ≤ m) (hhigh : m < 2 ^ 53 * 2 ^ k) :
    2 ^ 52 ≤ ((⟨m, false, false⟩ : ExtendedMantissa) >>> k).roundedMantissa ∧
      ((⟨m, false, false⟩ : ExtendedMantissa) >>> k).roundedMantissa ≤ 2 ^ 53 := by
  obtain ⟨hlower, hupper⟩ := roundedMantissa_bounds ((⟨m, false, false⟩ : ExtendedMantissa) >>> k)
  rw [mantissa_shiftRight] at hlower hupper
  have hquotient : 2 ^ 52 ≤ m / 2 ^ k := (Nat.le_div_iff_mul_le (Nat.two_pow_pos k)).2 hlow
  have hquotient' : m / 2 ^ k < 2 ^ 53 := (Nat.div_lt_iff_lt_mul (Nat.two_pow_pos k)).2 hhigh
  refine ⟨hquotient.trans hlower, hupper.trans ?_⟩
  simp only []
  split <;> omega

/-- A number below `2^1024` with a mantissa of 53 bits or the next power of two is the value of a
    normal float, which is what the shift after rounding gives. -/
theorem shiftToTargetExponent_full {r : Nat} {e : Int} (hlow : 2 ^ 52 ≤ r) (hhigh : r ≤ 2 ^ 53)
    (hleast : -1074 ≤ e) (hmost : (r : ℚ) * 2 ^ e < 2 ^ (1024 : Int)) :
    ∃ (m : Nat) (q : Int), Normal m q ∧ e ≤ q ∧ (m : ℚ) * 2 ^ q = r * 2 ^ e ∧
      shiftToTargetExponent .binary64 r e .exact = (⟨m, false, false⟩, q) := by
  -- A float of full width below 2^1024 has an exponent that can be stored.
  have hstored {m : Nat} {q : Int} (hm : 2 ^ 52 ≤ m) (hvalue : (m : ℚ) * 2 ^ q = r * 2 ^ e) :
      q < 972 := by
    have hlt : (2 : ℚ) ^ ((52 : Int) + q) < 2 ^ (1024 : Int) := by
      calc (2 : ℚ) ^ ((52 : Int) + q) = 2 ^ 52 * 2 ^ q := by
            rw [zpow_add₀ two_ne_zero]
            rfl
        _ ≤ m * 2 ^ q := by
            gcongr
            exact_mod_cast hm
        _ < 2 ^ (1024 : Int) := hvalue.trans_lt hmost
    have hexponents := (zpow_lt_zpow_iff_right₀ one_lt_two).1 hlt
    omega
  rcases Nat.lt_or_eq_of_le hhigh with hlt | rfl
  · have hnormal : Normal r e := ⟨hlow, hlt, hleast, hstored hlow rfl⟩
    refine ⟨r, e, hnormal, le_refl e, rfl, ?_⟩
    have hexact := shiftToTargetExponent_exact hnormal 0
    rwa [Nat.pow_zero, Nat.mul_one, Nat.cast_zero, Int.sub_zero] at hexact
  · have hvalue : ((2 ^ 52 : Nat) : ℚ) * 2 ^ (e + 1) = (2 ^ 53 : Nat) * 2 ^ e := by
      rw [zpow_add₀ two_ne_zero]
      push_cast
      ring
    have hnormal : Normal (2 ^ 52) (e + 1) :=
      ⟨le_refl _, by decide, by omega, hstored (le_refl _) hvalue⟩
    refine ⟨2 ^ 52, e + 1, hnormal, by omega, hvalue, ?_⟩
    have hexact := shiftToTargetExponent_exact hnormal 1
    have hback : e + 1 - (1 : Nat) = e := by omega
    rwa [hback] at hexact

/-- A mantissa of full width and more whose value, lifted, is below `2^1024` is rounded to a
    normal float, and lifted no further. -/
theorem round_normal {E : Int} (s : Sign) (hwide : 2 ^ 52 ≤ m)
    (hleast : -1074 ≤ E + (m.log2 - 52 : Nat))
    (hmost : (m : ℚ) * 2 ^ E * lift < 2 ^ (1024 : Int)) :
    ∃ (r : Nat) (q : Int) (h : Normal r q),
      roundWithAccuracy .binary64 s m E .exact = .finite s r q h.pos ∧
        E ≤ q ∧ (r : ℚ) * 2 ^ q ≤ m * 2 ^ E * lift := by
  obtain ⟨k, hk⟩ : ∃ k, k = m.log2 - 52 := ⟨_, rfl⟩
  rw [← hk] at hleast
  have hpos : 0 < m := by omega
  have hlog : m.log2 = 52 + k := by
    have hle : 52 ≤ m.log2 := (Nat.le_log2 hpos.ne').2 hwide
    omega
  have htarget : Format.binary64.targetExponent (totalExponent m E) = E + k := by
    simp only [Format.targetExponent, totalExponent, hlog, Format.mantissaBits, Format.minExponent]
    push_cast
    omega
  have hshift : (E + k - E).toNat = k := by omega
  have hlow : 2 ^ 52 * 2 ^ k ≤ m := by
    rw [← Nat.pow_add, ← hlog]
    exact Nat.log2_self_le hpos.ne'
  have hhigh : m < 2 ^ 53 * 2 ^ k := by
    have hlt : m < 2 ^ (m.log2 + 1) := Nat.lt_log2_self
    rwa [hlog, Nat.add_right_comm, Nat.pow_add] at hlt
  obtain ⟨r, hr⟩ :
      ∃ r, r = ((⟨m, false, false⟩ : ExtendedMantissa) >>> k).roundedMantissa := ⟨_, rfl⟩
  obtain ⟨hfull, hnext⟩ := roundedMantissa_full hlow hhigh
  have herror := roundedMantissa_le m k
  rw [← hr] at hfull hnext herror
  have hvalue : (r : ℚ) * 2 ^ (E + k) ≤ m * 2 ^ E * lift := by
    have herror : 2 * ((r : ℚ) * 2 ^ k) ≤ 2 * m + 2 ^ k := by exact_mod_cast herror
    have hlow : (2 : ℚ) ^ 52 * 2 ^ k ≤ m := by exact_mod_cast hlow
    have hlifted : (r : ℚ) * 2 ^ k ≤ m * lift := by
      rw [lift]
      linarith
    calc (r : ℚ) * 2 ^ (E + k) = r * 2 ^ k * 2 ^ E := by
          rw [zpow_add₀ two_ne_zero, zpow_natCast]
          ring
      _ ≤ m * lift * 2 ^ E := by gcongr
      _ = m * 2 ^ E * lift := by ring
  obtain ⟨f, q, hnormal, hq, hsame, hfinal⟩ :=
    shiftToTargetExponent_full hfull hnext hleast (hvalue.trans_lt hmost)
  refine ⟨f, q, hnormal, ?_, by omega, hsame.trans_le hvalue⟩
  have hfirst : shiftToTargetExponent .binary64 m E .exact =
      ((⟨m, false, false⟩ : ExtendedMantissa) >>> k, E + k) := by
    rw [shiftToTargetExponent, htarget, shiftToExponent]
    simp only [hshift, ExtendedMantissa.ofMantissaAndAccuracy]
  simp only [roundWithAccuracy, hfirst, ← hr, hfinal]
  rw [dif_neg hnormal.pos.ne']

/-! ### Floats up to a number -/

theorem isInf_normal (s : Sign) (h : Normal m q) : (normal s m q h).isInf = false := by
  show (UnpackedFloat.unpack .binary64
    (UnpackedFloat.pack .binary64 (.finite s m q h.pos))).isInf = false
  rw [unpack_pack h]
  rfl

theorem one_le_lift : 1 ≤ lift := by
  rw [lift]
  norm_num

theorem lift_nonneg : 0 ≤ lift := zero_le_one.trans one_le_lift

/-- Whether a number stays below `2^1024` when it is lifted is a matter of natural numbers. -/
theorem lifted_lt {n k : Nat} (h : n * (2 ^ 53 + 1) ^ k < 2 ^ 1024 * (2 ^ 53) ^ k) :
    (n : ℚ) * lift ^ k < 2 ^ (1024 : Int) := by
  have hlift : lift = ((2 ^ 53 + 1 : Nat) : ℚ) / (2 ^ 53 : Nat) := by
    rw [lift]
    norm_num
  have hpos : (0 : ℚ) < ((2 ^ 53 : Nat) : ℚ) ^ k := by positivity
  have htop : (2 : ℚ) ^ (1024 : Int) = (2 ^ 1024 : Nat) := by
    rw [Nat.cast_pow]
    rfl
  rw [hlift, div_pow, mul_div_assoc', div_lt_iff₀ hpos, htop]
  exact_mod_cast h

theorem value_nonneg (m : Nat) (q : Int) : (0 : ℚ) ≤ m * 2 ^ q := by positivity

/-- The float is at most the number. It is positive and not much below 1, so a product of two
    such floats has a full mantissa. -/
def AtMost (x : Float) (b : ℚ) : Prop :=
  ∃ (m : Nat) (q : Int) (h : Normal m q),
    x = normal .positive m q h ∧ -53 ≤ q ∧ (m : ℚ) * 2 ^ q ≤ b

/-- A product of two floats is lifted once. -/
theorem AtMost.isInf_mul {x y : Float} {a b : ℚ} (hx : AtMost x a) (hy : AtMost y b)
    (hmost : a * b * lift < 2 ^ (1024 : Int)) : (x * y).isInf = false := by
  obtain ⟨m, q, hm, rfl, hq, hvalue⟩ := hx
  obtain ⟨m', q', hm', rfl, hq', hvalue'⟩ := hy
  have hproduct : ((m * m' : Nat) : ℚ) * 2 ^ (q + q') ≤ a * b := by
    calc ((m * m' : Nat) : ℚ) * 2 ^ (q + q') = m * 2 ^ q * (m' * 2 ^ q') := by
          rw [zpow_add₀ two_ne_zero]
          push_cast
          ring
      _ ≤ a * b := mul_le_mul hvalue hvalue' (value_nonneg m' q') ((value_nonneg m q).trans hvalue)
  have hlifted : ((m * m' : Nat) : ℚ) * 2 ^ (q + q') * lift < 2 ^ (1024 : Int) :=
    (mul_le_mul_of_nonneg_right hproduct lift_nonneg).trans_lt hmost
  have hwide : 2 ^ 52 * 2 ^ 52 ≤ m * m' := Nat.mul_le_mul hm.low hm'.low
  have hleast : -1074 ≤ q + q' + ((m * m').log2 - 52 : Nat) := by omega
  obtain ⟨r, e, hnormal, hround, -⟩ := round_normal .positive (by omega) hleast hlifted
  have hmul : normal .positive m q hm * normal .positive m' q' hm' =
      normal .positive r e hnormal := by
    show Float.ofModel (.pack (UnpackedFloat.mul .binary64
      (UnpackedFloat.unpack .binary64 (UnpackedFloat.pack .binary64 (.finite .positive m q hm.pos)))
      (UnpackedFloat.unpack .binary64
        (UnpackedFloat.pack .binary64 (.finite .positive m' q' hm'.pos))))) = _
    rw [unpack_pack hm, unpack_pack hm']
    show Float.ofModel (.pack (roundWithAccuracy .binary64 .positive (m * m') (q + q') .exact)) = _
    rw [hround, normal]
  rw [hmul, isInf_normal]

/-- A literal without point that the conversion does not look up is rounded once. -/
theorem atMost_ofScientific {e : Nat} (hn : 0 < n) (he : e ≤ 308)
    (hmost : (n : ℚ) * 10 ^ e * lift < 2 ^ (1024 : Int)) :
    AtMost (.ofModel (Float.Model.ofScientific n e)) (n * 10 ^ e * lift) := by
  -- The digits are shifted up by 53 bits first, so they are wide enough whatever they are.
  have hwide : 2 ^ 53 ≤ n * 2 ^ 53 * 10 ^ e := by
    calc 2 ^ 53 = 1 * 2 ^ 53 * 1 := by rw [Nat.one_mul, Nat.mul_one]
      _ ≤ n * 2 ^ 53 * 10 ^ e := by
          gcongr
          · omega
          · exact Nat.one_le_pow _ _ (by decide)
  have hlog : 53 ≤ (n * 2 ^ 53 * 10 ^ e).log2 := (Nat.le_log2 (by omega)).2 hwide
  have hvalue : ((n * 2 ^ 53 * 10 ^ e : Nat) : ℚ) * 2 ^ (-53 : Int) = n * 10 ^ e := by
    push_cast
    rw [zpow_neg]
    field_simp
    norm_num
  have hleast : -1074 ≤ (-53 : Int) + ((n * 2 ^ 53 * 10 ^ e).log2 - 52 : Nat) := by omega
  obtain ⟨r, q, hnormal, hround, hq, hr⟩ := round_normal .positive (by omega) hleast
    (by rwa [hvalue])
  rw [hvalue] at hr
  refine ⟨r, q, hnormal, ?_, hq, hr⟩
  have hscientific : UnpackedFloat.ofScientific .binary64 n e =
      roundWithAccuracy .binary64 .positive (n * 2 ^ 53 * 10 ^ e) (-53) .exact := by
    have hbits : (2 : Int) ^ Format.binary64.exponentBits = 2048 := rfl
    rw [UnpackedFloat.ofScientific, dif_neg (by omega), hbits, if_neg (by omega),
      if_neg (by omega), if_pos (by omega)]
    show roundWithAccuracy .binary64 .positive (n <<< 53 * 10 ^ (e : Int).toNat) (-53 + 0) .exact = _
    rw [Nat.shiftLeft_eq, Int.toNat_natCast, Int.add_zero]
  show Float.ofModel (.pack (UnpackedFloat.ofScientific .binary64 n e)) = _
  rw [hscientific, hround, normal]

/-- A natural number is rounded once. -/
theorem atMost_ofNat (hn : 0 < n) (hmost : (n : ℚ) * lift < 2 ^ (1024 : Int)) :
    AtMost (Float.ofNat n) (n * lift) := by
  by_cases hsmall : n < 2 ^ 53
  · -- Below 2^53 it is not even rounded.
    obtain ⟨m, q, hnormal, hq, hm⟩ := exists_normal hn hsmall
    have hvalue : m * 2 ^ q.toNat = n * 2 ^ (-q).toNat := by
      have hleft : q.toNat = 0 := by omega
      rw [hleft, Nat.pow_zero, Nat.mul_one, hm]
    refine ⟨m, q, hnormal, ofNat_exact hnormal hvalue, ?_, ?_⟩
    · by_contra hlow
      have hwide : 2 ^ 53 ≤ 2 ^ (-q).toNat := Nat.pow_le_pow_right (by decide) (by omega)
      have hle : 1 * 2 ^ (-q).toNat ≤ n * 2 ^ (-q).toNat := Nat.mul_le_mul_right _ hn
      have hhigh := hnormal.high
      omega
    · have hexact : (m : ℚ) * 2 ^ q = n := scaled_eq_iff.2 hvalue
      rw [hexact]
      exact le_mul_of_one_le_right n.cast_nonneg one_le_lift
  · have hround := atMost_ofScientific (e := 0) hn (by decide) (by simpa using hmost)
    rw [pow_zero, mul_one] at hround
    have hslow : Float.ofNat n = .ofModel (Float.Model.ofScientific n 0) := by
      show Float.ofScientific n false 0 = _
      rw [Float.ofScientific, dif_neg (by omega)]
      rfl
    rwa [hslow]

/-! ### Literals -/

open Json.Numeral (powerOfTen scale?)

/-- A power of ten is rounded once. -/
theorem atMost_powerOfTen {e : Nat} (he : e ≤ 308) : AtMost (powerOfTen e) (10 ^ e * lift) := by
  have hmost : (10 : ℚ) ^ e * lift < 2 ^ (1024 : Int) := by
    have hgreatest : ((10 ^ 308 : Nat) : ℚ) * lift ^ 1 < 2 ^ (1024 : Int) :=
      lifted_lt (by decide +kernel)
    rw [pow_one, Nat.cast_pow] at hgreatest
    have hpower : (10 : ℚ) ^ e ≤ (10 : Nat) ^ 308 := pow_le_pow_right₀ (by norm_num) he
    exact (mul_le_mul_of_nonneg_right hpower lift_nonneg).trans_lt hgreatest
  by_cases hsmall : e < 23
  · -- The first ones are looked up, and are what the integers are converted to.
    have hlookup : ∀ e < 23, powerOfTen e = Float.ofNat (10 ^ e) := by decide +kernel
    have hround := atMost_ofNat (n := 10 ^ e) (by positivity) (by simpa using hmost)
    rw [hlookup e hsmall]
    simpa using hround
  · have hround := atMost_ofScientific (n := 1) Nat.one_pos he (by simpa using hmost)
    have hslow : powerOfTen e = .ofModel (Float.Model.ofScientific 1 e) := by
      rw [powerOfTen, Float.ofScientific, dif_neg (by omega)]
      rfl
    rw [hslow]
    simpa using hround

/-- A literal is a float if it is below the greatest one by the three roundings it goes through:
    of its digits, of the power of ten, and of their product. -/
theorem scale?_isSome {n e : Nat} (hn : 0 < n) (he : e ≤ 308)
    (hmost : (n : ℚ) * 10 ^ e * lift ^ 3 < 2 ^ (1024 : Int)) : (scale? n e).isSome = true := by
  have hdigits : (n : ℚ) * lift < 2 ^ (1024 : Int) := by
    refine lt_of_le_of_lt ?_ hmost
    have hpower : (1 : ℚ) ≤ 10 ^ e * lift ^ 2 :=
      one_le_mul_of_one_le_of_one_le (one_le_pow₀ (by norm_num)) (one_le_pow₀ one_le_lift)
    calc (n : ℚ) * lift ≤ n * lift * (10 ^ e * lift ^ 2) :=
          le_mul_of_one_le_right (mul_nonneg n.cast_nonneg lift_nonneg) hpower
      _ = n * 10 ^ e * lift ^ 3 := by ring
  have hfinite : (Float.ofNat n * powerOfTen e).isInf = false := by
    refine (atMost_ofNat hn hdigits).isInf_mul (atMost_powerOfTen he) ?_
    have hsame : (n : ℚ) * lift * (10 ^ e * lift) * lift = n * 10 ^ e * lift ^ 3 := by ring
    rwa [hsame]
  simp only [scale?]
  rw [if_neg (by omega), if_pos (by omega), Int.toNat_natCast, hfinite]
  rfl

end Parley.Binary64
