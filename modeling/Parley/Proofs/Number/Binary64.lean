/-
  Parley.Proofs.Number.Binary64

  Conversion of integers to floats loses nothing where a float for the integer exists. A normal
  float is its sign, a mantissa of full width and an exponent (`Normal`), and a natural number
  `n` with `n = m · 2^q` is converted to the float with mantissa `m` and exponent `q`
  (`ofNat_exact`), on each of the two ways the conversion takes. The bits of a float say which
  number that is (`toRat`).
-/
import Mathlib
import Parley.Number.Decimal

namespace Parley.Binary64

open Float.Model (Format UnpackedFloat totalExponent)
open Float.Model.UnpackedFloat (Sign ExtendedMantissa Accuracy shiftToExponent
  shiftToTargetExponent roundWithAccuracy packComponents unpackExponent unpackMantissa unpackSign)
open Decimal (mantissaExponent isNegative)

variable {m n : Nat} {q : Int}

/-! ### Exact rounding -/

/-- The mantissa has its full width, and the exponent can be stored. -/
structure Normal (m : Nat) (q : Int) : Prop where
  low : 2 ^ 52 ≤ m
  high : m < 2 ^ 53
  least : -1074 ≤ q
  most : q < 972

theorem log2_mul_two_pow (hn : n ≠ 0) (k : Nat) : (n * 2 ^ k).log2 = n.log2 + k := by
  induction k with
  | zero => simp
  | succ k ih =>
      have hk : n * 2 ^ k ≠ 0 := Nat.mul_ne_zero hn (Nat.two_pow_pos k).ne'
      rw [Nat.pow_succ', Nat.mul_left_comm, Nat.log2_two_mul hk, ih, Nat.add_assoc]

namespace Normal

theorem pos (h : Normal m q) : 0 < m := by
  have hlow := h.low
  omega

theorem log2_eq (h : Normal m q) : m.log2 = 52 := (Nat.log2_eq_iff h.pos.ne').2 ⟨h.low, h.high⟩

theorem targetExponent (h : Normal m q) (k : Nat) :
    Format.binary64.targetExponent (totalExponent (m * 2 ^ k) (q - k)) = q := by
  have hleast := h.least
  simp only [Format.targetExponent, totalExponent, log2_mul_two_pow h.pos.ne' k, h.log2_eq,
    Format.mantissaBits, Format.minExponent]
  push_cast
  omega

end Normal

theorem shiftRight_exact (m k : Nat) :
    (⟨m * 2 ^ k, false, false⟩ : ExtendedMantissa) >>> k = ⟨m, false, false⟩ := by
  show Nat.repeat ExtendedMantissa.shiftRightOne k ⟨m * 2 ^ k, false, false⟩ = _
  induction k generalizing m with
  | zero => simp [Nat.repeat]
  | succ k ih =>
      rw [Nat.repeat, Nat.pow_succ', ← Nat.mul_assoc, ih (m * 2)]
      simp [ExtendedMantissa.shiftRightOne]

theorem shiftToTargetExponent_exact (h : Normal m q) (k : Nat) :
    shiftToTargetExponent .binary64 (m * 2 ^ k) (q - k) .exact = (⟨m, false, false⟩, q) := by
  have hk : (q - (q - (k : Int))).toNat = k := by omega
  rw [shiftToTargetExponent, h.targetExponent k, shiftToExponent]
  simp only [hk, ExtendedMantissa.ofMantissaAndAccuracy, shiftRight_exact, Int.sub_add_cancel]

/-- A mantissa that is too wide by zeros only is rounded without loss. -/
theorem round_exact (h : Normal m q) (s : Sign) (k : Nat) :
    roundWithAccuracy .binary64 s (m * 2 ^ k) (q - k) .exact = .finite s m q h.pos := by
  have hagain := shiftToTargetExponent_exact h 0
  rw [Nat.pow_zero, Nat.mul_one, Nat.cast_zero, Int.sub_zero] at hagain
  simp only [roundWithAccuracy, shiftToTargetExponent_exact h k, ExtendedMantissa.roundedMantissa,
    ExtendedMantissa.accuracy, Accuracy.roundToNearestEven, hagain]
  rw [dif_neg h.pos.ne']

/-! ### Packing -/

/-- The exponent as it stands in the bits. -/
def biased (q : Int) : Nat := (q + 1075).toNat

theorem Normal.biased_pos (h : Normal m q) : 0 < biased q := by
  have hleast := h.least
  rw [biased]
  omega

theorem Normal.biased_lt (h : Normal m q) : biased q < 2047 := by
  have hmost := h.most
  rw [biased]
  omega

theorem pack_normal (h : Normal m q) (s : Sign) :
    UnpackedFloat.pack .binary64 (.finite s m q h.pos) =
      packComponents .binary64 s (BitVec.ofNat _ (biased q)) (BitVec.ofNat _ m) := by
  have hbiased : (q + Format.binary64.exponentBias + (52 : Nat)).toNat = biased q := by
    have hbias : Format.binary64.exponentBias = 1023 := rfl
    rw [hbias, biased]
    omega
  have hbits : Format.binary64.mantissaBits = 53 := rfl
  have hlt := h.biased_lt
  simp only [UnpackedFloat.pack, h.log2_eq, hbiased, hbits]
  rw [if_neg (by omega), if_pos trivial]

theorem unpack_pack (h : Normal m q) (s : Sign) :
    UnpackedFloat.unpack .binary64 (UnpackedFloat.pack .binary64 (.finite s m q h.pos)) =
      .finite s m q h.pos := by
  have hpos := h.biased_pos
  have hlt := h.biased_lt
  have hexponent : (BitVec.ofNat 11 (biased q)).toNat = biased q := by
    rw [BitVec.toNat_ofNat]
    omega
  have htop : BitVec.ofNat 11 (biased q) ≠ -1#11 := by
    intro heq
    rw [heq] at hexponent
    have hall : (-1#11).toNat = 2047 := rfl
    omega
  have hbottom : BitVec.ofNat 11 (biased q) ≠ 0#11 := by
    intro heq
    rw [heq] at hexponent
    have hnone : (0#11).toNat = 0 := rfl
    omega
  have hmantissa : (1#1 ++ BitVec.ofNat 52 m).toNat = m := by
    have hlow := h.low
    have hhigh := h.high
    rw [BitVec.toNat_append, BitVec.toNat_ofNat, BitVec.toNat_ofNat]
    show 2 ^ 52 * 1 ||| m % 2 ^ 52 = m
    rw [← Nat.two_pow_add_eq_or_of_lt (Nat.mod_lt m (by decide))]
    omega
  have hbias : Format.binary64.exponentBias = 1023 := rfl
  rw [pack_normal h, UnpackedFloat.unpack]
  simp only [UnpackedFloat.unpackMantissa_packComponents,
    UnpackedFloat.unpackExponent_packComponents, UnpackedFloat.unpackSign_packComponents]
  rw [if_neg htop, if_neg hbottom]
  simp only [Sign.ofBitVec_toBitVec, UnpackedFloat.finite.injEq, true_and]
  refine ⟨hmantissa, ?_⟩
  have hleast := h.least
  rw [hexponent, hbias, biased]
  push_cast
  omega

/-- The float with a given mantissa and exponent. -/
def normal (s : Sign) (m : Nat) (q : Int) (h : Normal m q) : Float :=
  .ofModel (.pack (.finite s m q h.pos))

theorem normal_inj {m' : Nat} {q' : Int} {h : Normal m q} {h' : Normal m' q'} {s s' : Sign}
    (heq : (normal s m q h == normal s' m' q' h') = true) : s = s' ∧ m = m' ∧ q = q' := by
  have hunpacked : UnpackedFloat.beq (.finite s m q h.pos) (.finite s' m' q' h'.pos) = true := by
    rw [← unpack_pack h, ← unpack_pack h']
    exact heq
  obtain ⟨-, -, heq | ⟨hzero, -⟩ | ⟨hzero, -⟩⟩ :=
    (UnpackedFloat.beq_iff_ne_notANumber_and_eq _ _).1 hunpacked
  · cases heq
    exact ⟨rfl, rfl, rfl⟩
  · cases hzero
  · cases hzero

theorem neg_normal (h : Normal m q) (s : Sign) : -normal s m q h = normal (-s) m q h := by
  show Float.ofModel (.pack (UnpackedFloat.neg
    (UnpackedFloat.unpack .binary64 (UnpackedFloat.pack .binary64 (.finite s m q h.pos))))) = _
  rw [unpack_pack h]
  rfl

/-! ### From a natural number -/

/-- From 2^53 on the conversion multiplies by a power of ten, which is 1 here, and rounds. -/
theorem ofNat_of_ge (h : Normal m q) (hlarge : 2 ^ 53 ≤ n) (hq : 0 ≤ q)
    (hvalue : n = m * 2 ^ q.toNat) : Float.ofNat n = normal .positive m q h := by
  have hmul : UnpackedFloat.ofScientific .binary64 n 0 = .finite .positive m q h.pos := by
    have hwide : n <<< 53 * 10 ^ 0 = m * 2 ^ (q.toNat + 53) := by
      rw [Nat.pow_zero, Nat.mul_one, Nat.shiftLeft_eq, hvalue, Nat.mul_assoc, Nat.pow_add]
    have hexponent : (-53 : Int) + 0 = q - (q.toNat + 53 : Nat) := by omega
    have hround := round_exact h .positive (q.toNat + 53)
    rw [← hwide, ← hexponent] at hround
    have hbits : (2 : Int) ^ Format.binary64.exponentBits = 2048 := rfl
    rw [UnpackedFloat.ofScientific, dif_neg (by omega), hbits, if_neg (by omega),
      if_neg (by omega), if_pos (le_refl 0)]
    exact hround
  show Float.ofScientific n false 0 = _
  rw [Float.ofScientific, dif_neg (by omega)]
  show Float.ofModel (.pack (UnpackedFloat.ofScientific .binary64 n 0)) = _
  rw [hmul, normal]

/-- A machine word is first widened to the full mantissa. -/
theorem ofNat_word (h : Normal m q) (hq : q ≤ 0) (hvalue : m = n * 2 ^ (-q).toNat) :
    UnpackedFloat.ofNat .binary64 n = .finite .positive m q h.pos := by
  have hn : 0 < n := by
    have hpos := h.pos
    rw [hvalue] at hpos
    exact Nat.pos_of_mul_pos_right hpos
  have hcompare : compare (n : Int) 0 = .gt := compare_gt_iff_gt.2 (by omega)
  have htotal : totalExponent n 0 = totalExponent m q := by
    have hlog : m.log2 = n.log2 + (-q).toNat := by
      rw [hvalue]
      exact log2_mul_two_pow hn.ne' _
    simp only [totalExponent, hlog]
    omega
  have htarget := h.targetExponent 0
  rw [Nat.pow_zero, Nat.mul_one, Nat.cast_zero, Int.sub_zero] at htarget
  have hround := round_exact h .positive 0
  rw [Nat.pow_zero, Nat.mul_one, Nat.cast_zero, Int.sub_zero] at hround
  have hshift : n <<< (0 - q).toNat = m := by rw [Nat.shiftLeft_eq, Int.zero_sub, ← hvalue]
  have hexponent : (0 : Int) - ((0 - q).toNat : Int) = q := by omega
  rw [UnpackedFloat.ofNat, UnpackedFloat.ofInt, UnpackedFloat.normalize, hcompare]
  simp only [UnpackedFloat.round, Int.toNat_natCast, htotal, htarget,
    UnpackedFloat.decreaseExponent, hshift, hexponent, hround]

theorem normal_one : Normal (2 ^ 52) (-52) := ⟨by decide, by decide, by decide, by decide⟩

theorem unpack_one :
    (1.0 : Float).toModel.unpack = .finite .positive (2 ^ 52) (-52) normal_one.pos := by
  have hone : (1.0 : Float) = normal .positive (2 ^ 52) (-52) normal_one := by decide +kernel
  rw [hone]
  exact unpack_pack normal_one .positive

/-- Below 2^53 it converts a machine word and multiplies the floats. -/
theorem ofNat_of_lt (h : Normal m q) (hsmall : n < 2 ^ 53) (hq : q ≤ 0)
    (hvalue : m = n * 2 ^ (-q).toNat) : Float.ofNat n = normal .positive m q h := by
  have hword : n.toUInt64.toFloat = normal .positive m q h := by
    have hn : n.toUInt64.toNat = n := by
      show n % 2 ^ 64 = n
      omega
    show Float.ofModel (.pack (UnpackedFloat.ofNat .binary64 n.toUInt64.toNat)) = _
    rw [hn, ofNat_word h hq hvalue, normal]
  have hunpack : (normal .positive m q h).toModel.unpack = .finite .positive m q h.pos :=
    unpack_pack h .positive
  have hround : roundWithAccuracy .binary64 .positive (m * 2 ^ 52) (q + -52) .exact = _ :=
    round_exact h .positive 52
  show Float.ofScientific n false 0 = _
  rw [Float.ofScientific, dif_pos ⟨hsmall, by decide⟩]
  show n.toUInt64.toFloat * 1.0 = _
  rw [hword]
  show Float.ofModel (.pack (UnpackedFloat.mul _ (normal .positive m q h).toModel.unpack
    (1.0 : Float).toModel.unpack)) = _
  rw [hunpack, unpack_one]
  show Float.ofModel (.pack
    (roundWithAccuracy .binary64 .positive (m * 2 ^ 52) (q + -52) .exact)) = _
  rw [hround, normal]

/-- A natural number for which there is a normal float is converted to it. -/
theorem ofNat_exact (h : Normal m q) (hvalue : m * 2 ^ q.toNat = n * 2 ^ (-q).toNat) :
    Float.ofNat n = normal .positive m q h := by
  have hlow := h.low
  have hhigh := h.high
  rcases Int.lt_or_le 0 q with hq | hq
  · have hright : (-q).toNat = 0 := by omega
    have hn : n = m * 2 ^ q.toNat := by rw [hvalue, hright, Nat.pow_zero, Nat.mul_one]
    have hdouble : 2 ^ 1 ≤ 2 ^ q.toNat := Nat.pow_le_pow_right (by decide) (by omega)
    have hlarge : 2 ^ 52 * 2 ^ 1 ≤ m * 2 ^ q.toNat := Nat.mul_le_mul hlow hdouble
    exact ofNat_of_ge h (by omega) hq.le hn
  · have hleft : q.toNat = 0 := by omega
    have hm : m = n * 2 ^ (-q).toNat := by rw [← hvalue, hleft, Nat.pow_zero, Nat.mul_one]
    have hle : n * 1 ≤ n * 2 ^ (-q).toNat := Nat.mul_le_mul_left n (Nat.two_pow_pos _)
    exact ofNat_of_lt h (by omega) hq hm

/-- Below 2^53 there is a normal float for every natural number but 0. -/
theorem exists_normal (hpos : 0 < n) (hlt : n < 2 ^ 53) :
    ∃ (m : Nat) (q : Int), Normal m q ∧ q ≤ 0 ∧ m = n * 2 ^ (-q).toNat := by
  have hlog : n.log2 < 53 := (Nat.log2_lt hpos.ne').2 hlt
  have hwidth : n.log2 + (52 - n.log2) = 52 := by omega
  refine ⟨n * 2 ^ (52 - n.log2), -(52 - n.log2 : Nat), ⟨?_, ?_, by omega, by omega⟩, by omega, ?_⟩
  · calc 2 ^ 52 = 2 ^ n.log2 * 2 ^ (52 - n.log2) := by rw [← Nat.pow_add, hwidth]
      _ ≤ n * 2 ^ (52 - n.log2) := Nat.mul_le_mul_right _ (Nat.log2_self_le hpos.ne')
  · calc n * 2 ^ (52 - n.log2) < 2 ^ (n.log2 + 1) * 2 ^ (52 - n.log2) :=
          Nat.mul_lt_mul_of_pos_right Nat.lt_log2_self (Nat.two_pow_pos _)
      _ = 2 ^ 53 := by rw [← Nat.pow_add, Nat.add_right_comm, hwidth]
  · rw [Int.neg_neg, Int.toNat_natCast]

/-! ### The bits of a float -/

/-- The number that a finite float stands for. -/
def toRat (x : Float) : ℚ :=
  (if isNegative x then -1 else 1) * ((mantissaExponent x).1 * 2 ^ (mantissaExponent x).2)

/-- A product with a power of two, told in natural numbers. -/
theorem scaled_eq_iff {m n : Nat} {q : Int} :
    ((m : ℚ) * 2 ^ q = n) ↔ m * 2 ^ q.toNat = n * 2 ^ (-q).toNat := by
  rcases Int.le_total 0 q with hq | hq
  · obtain ⟨k, rfl⟩ := Int.eq_ofNat_of_zero_le hq
    have hk : (-(k : Int)).toNat = 0 := by omega
    rw [zpow_natCast, Int.toNat_natCast, hk, Nat.pow_zero, Nat.mul_one]
    exact_mod_cast Iff.rfl
  · obtain ⟨k, hk⟩ := Int.eq_ofNat_of_zero_le (Int.neg_nonneg_of_nonpos hq)
    obtain rfl : q = -(k : Int) := by omega
    have hpos : (2 : ℚ) ^ k ≠ 0 := by positivity
    have hk : (-(k : Int)).toNat = 0 := by omega
    rw [zpow_neg, zpow_natCast, Int.neg_neg, Int.toNat_natCast, hk, Nat.pow_zero, Nat.mul_one,
      ← div_eq_mul_inv, div_eq_iff hpos]
    exact_mod_cast Iff.rfl

/-- The sign that a float has in the bits. -/
def sign (x : Float) : Sign := if isNegative x then .negative else .positive

theorem toNat_unpackExponent (x : Float) :
    (@unpackExponent .binary64 x.toBits.toBitVec).toNat = x.toBits.toNat / 2 ^ 52 % 2 ^ 11 := by
  rw [UnpackedFloat.unpackExponent_def, BitVec.extractLsb'_toNat, Nat.shiftRight_eq_div_pow]
  rfl

theorem toNat_unpackMantissa (x : Float) :
    (@unpackMantissa .binary64 x.toBits.toBitVec).toNat = x.toBits.toNat % 2 ^ 52 := by
  rw [UnpackedFloat.unpackMantissa_def, BitVec.extractLsb'_toNat, Nat.shiftRight_zero]
  rfl

theorem sign_unpackSign (x : Float) :
    Sign.ofBitVec (@unpackSign .binary64 x.toBits.toBitVec) = sign x := by
  have hlt := x.toBits.toNat_lt
  have htop : (@unpackSign .binary64 x.toBits.toBitVec).toNat = x.toBits.toNat / 2 ^ 63 := by
    rw [UnpackedFloat.unpackSign_def, BitVec.extractLsb'_toNat, Nat.shiftRight_eq_div_pow]
    show x.toBits.toNat / 2 ^ 63 % 2 = _
    omega
  have hbit : @unpackSign .binary64 x.toBits.toBitVec = 0#1 ↔ ¬ isNegative x = true := by
    rw [← BitVec.toNat_inj, htop, isNegative, decide_eq_true_eq]
    show _ = 0 ↔ ¬ x.toBits.toNat / 2 ^ 63 = 1
    omega
  rw [Sign.ofBitVec, sign]
  by_cases hsign : isNegative x = true
  · rw [if_neg fun hzero => hbit.1 hzero hsign, if_pos hsign]
  · rw [if_pos (hbit.2 hsign), if_neg hsign]

/-- The greatest stored exponent is kept for what is not finite. -/
theorem exponent_lt_of_isFinite {x : Float} (h : x.isFinite = true) :
    x.toBits.toNat / 2 ^ 52 % 2 ^ 11 < 2047 := by
  by_contra htop
  have hexponent : @unpackExponent .binary64 x.toBits.toBitVec = -1#11 := by
    rw [← BitVec.toNat_inj, toNat_unpackExponent]
    show _ = 2047
    omega
  have hunpack : x.toModel.unpack.isFinite = true := h
  rw [Float.Model.unpack, UnpackedFloat.unpack] at hunpack
  simp only [] at hunpack
  split at hunpack
  · split at hunpack <;> cases hunpack
  · contradiction

theorem mantissaExponent_eq (x : Float) :
    mantissaExponent x =
      if x.toBits.toNat / 2 ^ 52 % 2 ^ 11 = 0 then (x.toBits.toNat % 2 ^ 52, (-1074 : Int))
      else (x.toBits.toNat % 2 ^ 52 + 2 ^ 52,
        ((x.toBits.toNat / 2 ^ 52 % 2 ^ 11 : Nat) : Int) - 1075) := rfl

/-- A finite float is a zero, or so small that its mantissa is not full, or normal. -/
theorem finite_cases {x : Float} (hfinite : x.isFinite = true) :
    (x = 0 ∨ x = -0) ∨
      (0 < (mantissaExponent x).1 ∧ (mantissaExponent x).1 < 2 ^ 52 ∧
        (mantissaExponent x).2 = -1074) ∨
      Normal (mantissaExponent x).1 (mantissaExponent x).2 := by
  have hlt := exponent_lt_of_isFinite hfinite
  have hfraction : x.toBits.toNat % 2 ^ 52 < 2 ^ 52 := Nat.mod_lt _ (by decide)
  rw [mantissaExponent_eq]
  split
  · by_cases hzero : x.toBits.toNat % 2 ^ 52 = 0
    · have hbits := x.toBits.toNat_lt
      have htwo : x.toBits.toNat = 0 ∨ x.toBits.toNat = 2 ^ 63 := by omega
      rcases htwo with htwo | htwo
      · exact .inl (.inl (Float.toBits_inj.1 (UInt64.toNat_inj.1 htwo)))
      · exact .inl (.inr (Float.toBits_inj.1 (UInt64.toNat_inj.1 htwo)))
    · exact .inr (.inl ⟨Nat.pos_of_ne_zero hzero, hfraction, rfl⟩)
  · refine .inr (.inr ⟨?_, ?_, ?_, ?_⟩) <;> simp only [] <;> omega

/-- A normal float is made of what its bits say. -/
theorem eq_normal {x : Float} (h : Normal (mantissaExponent x).1 (mantissaExponent x).2) :
    x = normal (sign x) (mantissaExponent x).1 (mantissaExponent x).2 h := by
  have hvalue := mantissaExponent_eq x
  have hfull : ¬ x.toBits.toNat / 2 ^ 52 % 2 ^ 11 = 0 := by
    intro hzero
    have hlow := h.low
    rw [hvalue, if_pos hzero] at hlow
    simp only [] at hlow
    omega
  rw [if_neg hfull] at hvalue
  have hexponent : @unpackExponent .binary64 x.toBits.toBitVec =
      BitVec.ofNat 11 (biased (mantissaExponent x).2) := by
    rw [← BitVec.toNat_inj, toNat_unpackExponent, BitVec.toNat_ofNat, biased, hvalue]
    simp only []
    omega
  have hmantissa : @unpackMantissa .binary64 x.toBits.toBitVec =
      BitVec.ofNat 52 (mantissaExponent x).1 := by
    rw [← BitVec.toNat_inj, toNat_unpackMantissa, BitVec.toNat_ofNat, hvalue]
    simp only []
    omega
  refine Float.toBits_inj.1 (UInt64.toBitVec_inj.1 ?_)
  show _ = UnpackedFloat.pack .binary64
    (.finite (sign x) (mantissaExponent x).1 (mantissaExponent x).2 h.pos)
  rw [pack_normal h, ← hexponent, ← hmantissa, ← sign_unpackSign]
  exact (@UnpackedFloat.packComponents_unpackSign_unpackExponent_unpackMantissa .binary64
    x.toBits.toBitVec).symm

end Parley.Binary64
