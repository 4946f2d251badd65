/-
  Parley.Proofs.Number.Shortest

  Bounds of the shortest decimal of a float. What is found lies in the interval of the reals that
  round to the float, on a grid with at most seventeen digits, and dropping zeros changes neither
  (`shortest_spec`). So the decimal of a finite float is read as a float and not as a number
  beyond the largest (`scale?_shortest`), although the reader rounds three times: all finite
  floats but the greatest leave room for that, and next to the greatest there are few decimals of
  so many digits.
-/
import Mathlib
import Parley.Proofs.Number.Rounding

namespace Parley.Decimal

open Binary64 (lift)

/-- The number that a decimal stands for. -/
def value (d : Decimal) : ℚ := d.digits * 10 ^ d.exponent

/-! ### Digits -/

theorem digitCount_pos (n : Nat) : 0 < digitCount n := Nat.length_toDigits_pos

theorem lt_pow_digitCount (n : Nat) : n < 10 ^ digitCount n :=
  (Nat.length_toDigits_le_iff (by decide) (digitCount_pos n)).1 (le_refl _)

theorem pow_digitCount_le {n : Nat} (hn : 0 < n) : 10 ^ (digitCount n - 1) ≤ n := by
  by_contra hlt
  have hpos := digitCount_pos n
  have hmore : 0 < digitCount n - 1 := by
    by_contra hone
    have hzero : digitCount n - 1 = 0 := by omega
    rw [hzero] at hlt
    omega
  have hle : digitCount n ≤ digitCount n - 1 :=
    (Nat.length_toDigits_le_iff (by decide) hmore).2 (by omega)
  omega

/-! ### Dropping zeros -/

theorem value_strip (fuel : Nat) (d : Decimal) : (strip fuel d).value = d.value := by
  induction fuel generalizing d with
  | zero => rfl
  | succ fuel ih =>
      rw [strip]
      split
      · rename_i hzero
        have hdigits : d.digits = d.digits / 10 * 10 := by omega
        rw [ih, value, value, zpow_add₀ (by norm_num)]
        conv_rhs => rw [hdigits]
        push_cast
        ring
      · rfl

theorem digits_strip_le (fuel : Nat) (d : Decimal) : (strip fuel d).digits ≤ d.digits := by
  induction fuel generalizing d with
  | zero => exact le_refl _
  | succ fuel ih =>
      rw [strip]
      split
      · exact (ih _).trans (Nat.div_le_self _ _)
      · exact le_refl _

theorem digits_strip_pos (fuel : Nat) {d : Decimal} (h : 0 < d.digits) :
    0 < (strip fuel d).digits := by
  induction fuel generalizing d with
  | zero => exact h
  | succ fuel ih =>
      rw [strip]
      split
      · rename_i hzero
        exact ih (show 0 < d.digits / 10 by omega)
      · exact h

/-! ### The interval -/

/-- A power is scaled on one side or on the other. -/
theorem pow_toNat {b : ℚ} (hb : b ≠ 0) (p : Int) : b ^ p.toNat = b ^ p * b ^ (-p).toNat := by
  rw [← zpow_natCast, ← zpow_natCast, ← zpow_add₀ hb]
  congr 1
  omega

namespace Interval

variable {i : Interval} {c : Nat} {p : Int} {v : ℚ}

/-- The number lies in the interval, between its ends or on one that belongs to it. -/
def Contains (i : Interval) (v : ℚ) : Prop :=
  (i.low / i.unit < v ∧ v < i.high / i.unit) ∨
    (i.closed = true ∧ (v = i.low / i.unit ∨ v = i.high / i.unit))

theorem Contains.low_le (h : i.Contains v) (hends : i.low ≤ i.high) :
    (i.low : ℚ) / i.unit ≤ v := by
  have hends : (i.low : ℚ) / i.unit ≤ i.high / i.unit := by gcongr
  rcases h with h | ⟨-, rfl | rfl⟩
  · exact h.1.le
  · exact le_refl _
  · exact hends

theorem Contains.le_high (h : i.Contains v) (hends : i.low ≤ i.high) :
    v ≤ (i.high : ℚ) / i.unit := by
  have hends : (i.low : ℚ) / i.unit ≤ i.high / i.unit := by gcongr
  rcases h with h | ⟨-, rfl | rfl⟩
  · exact h.2.le
  · exact hends
  · exact le_refl _

theorem Contains.closed_of_eq (h : i.Contains v)
    (heq : v = i.low / i.unit ∨ v = i.high / i.unit) : i.closed = true := by
  rcases h with ⟨hlow, hhigh⟩ | ⟨hclosed, -⟩
  · rcases heq with rfl | rfl
    · exact absurd hlow (lt_irrefl _)
    · exact absurd hhigh (lt_irrefl _)
  · exact hclosed

/-- The test by cross-multiplication is that of the number. -/
theorem holds_iff (hunit : 0 < i.unit) : i.holds c p = true ↔ i.Contains (c * 10 ^ p) := by
  have hunit' : (0 : ℚ) < i.unit := by exact_mod_cast hunit
  have hscale : (0 : ℚ) < 10 ^ (-p).toNat := by positivity
  have hpoint : (c * 10 ^ p.toNat * i.unit : ℚ) = c * 10 ^ p * i.unit * 10 ^ (-p).toNat := by
    rw [pow_toNat (by norm_num) p]
    ring
  have hlt (a : Nat) : (a : ℚ) / i.unit < c * 10 ^ p ↔
      a * 10 ^ (-p).toNat < c * 10 ^ p.toNat * i.unit := by
    rw [div_lt_iff₀ hunit', ← mul_lt_mul_iff_of_pos_right hscale, ← hpoint]
    exact_mod_cast Iff.rfl
  have hgt (a : Nat) : (c * 10 ^ p : ℚ) < a / i.unit ↔
      c * 10 ^ p.toNat * i.unit < a * 10 ^ (-p).toNat := by
    rw [lt_div_iff₀ hunit', ← mul_lt_mul_iff_of_pos_right hscale, ← hpoint]
    exact_mod_cast Iff.rfl
  have heq (a : Nat) : (c * 10 ^ p : ℚ) = a / i.unit ↔
      c * 10 ^ p.toNat * i.unit = a * 10 ^ (-p).toNat := by
    rw [eq_div_iff hunit'.ne', ← mul_left_inj' hscale.ne', ← hpoint]
    exact_mod_cast Iff.rfl
  simp only [Contains, hlt, hgt, heq, holds, Bool.or_eq_true, Bool.and_eq_true,
    decide_eq_true_eq, beq_iff_eq, Nat.pow_eq]

/-- What lies in the interval is at most its upper end. -/
theorem value_le_of_holds (hunit : 0 < i.unit) (hends : i.low ≤ i.high)
    (h : i.holds c p = true) : (c : ℚ) * 10 ^ p ≤ i.high / i.unit :=
  ((holds_iff hunit).1 h).le_high hends

/-- Zero does not lie in the interval of a float that is not zero. -/
theorem pos_of_holds (hlow : 0 < i.low) (hends : i.low ≤ i.high) (h : i.holds c p = true) :
    0 < c := by
  have hpower : 0 < 10 ^ (-p).toNat := Nat.pow_pos (by decide)
  have hlow' : 0 < i.low * 10 ^ (-p).toNat := Nat.mul_pos hlow hpower
  have hhigh : 0 < i.high * 10 ^ (-p).toNat := Nat.mul_pos (hlow.trans_le hends) hpower
  rw [Nat.pos_iff_ne_zero]
  rintro rfl
  simp only [holds, Bool.or_eq_true, Bool.and_eq_true, decide_eq_true_eq, beq_iff_eq,
    Nat.pow_eq, Nat.zero_mul] at h
  omega

/-- What is found on a grid lies in the interval, and is the neighbour of the middle on either
    side. -/
theorem of_nearest? (h : i.nearest? p = some c) :
    i.holds c p = true ∧
      c ≤ i.middle * 10 ^ (-p).toNat / (10 ^ p.toNat * i.unit) + 1 := by
  simp only [nearest?, Nat.pow_eq] at h
  generalize i.middle * 10 ^ (-p).toNat / (10 ^ p.toNat * i.unit) = below at h ⊢
  split at h
  · cases h
  · rename_i hbelow _
    cases h
    exact ⟨hbelow, Nat.le_succ _⟩
  · rename_i _ habove
    cases h
    exact ⟨habove, le_refl _⟩
  · rename_i hbelow habove
    split at h
    · cases h
      exact ⟨hbelow, Nat.le_succ _⟩
    · cases h
      exact ⟨habove, le_refl _⟩

/-- The middle is below the power of ten after its magnitude. -/
theorem middle_lt (hmiddle : 0 < i.middle) (hunit : 0 < i.unit) :
    (i.middle : ℚ) / i.unit < 10 ^ (i.magnitude + 1) := by
  have hunit' : (0 : ℚ) < i.unit := by exact_mod_cast hunit
  rw [div_lt_iff₀ hunit', magnitude]
  split
  · -- The whole part of the quotient has so many digits.
    have hdigits := lt_pow_digitCount (i.middle / i.unit)
    have hlt : i.middle < 10 ^ digitCount (i.middle / i.unit) * i.unit :=
      (Nat.div_lt_iff_lt_mul hunit).1 hdigits
    rw [Int.sub_add_cancel, zpow_natCast]
    exact_mod_cast hlt
  · rename_i hsmall
    obtain ⟨places, hplaces⟩ : ∃ n, digitCount (i.unit / i.middle) = n + 1 :=
      ⟨_, (Nat.succ_pred_eq_of_pos (digitCount_pos _)).symm⟩
    have hquotient : 0 < i.unit / i.middle := Nat.div_pos (by omega) hmiddle
    have hdigits : i.middle * 10 ^ places ≤ i.unit := by
      have hlower := pow_digitCount_le hquotient
      rw [hplaces, Nat.add_sub_cancel] at hlower
      rw [Nat.mul_comm]
      exact (Nat.le_div_iff_mul_le hmiddle).1 hlower
    have hpower : (0 : ℚ) < 10 ^ places := by positivity
    simp only [hplaces, Nat.add_sub_cancel, Nat.pow_eq]
    split
    · have hexponent : (10 : ℚ) ^ (-((places + 1 : Nat) - 1 : Int) + 1) * 10 ^ places = 10 := by
        rw [← zpow_natCast, ← zpow_add₀ (by norm_num)]
        push_cast
        ring_nf
        rw [zpow_one]
      have hten : (i.middle : ℚ) * 10 ^ places < 10 * i.unit := by
        have hdigits : (i.middle : ℚ) * 10 ^ places ≤ i.unit := by exact_mod_cast hdigits
        linarith
      refine lt_of_mul_lt_mul_right ?_ hpower.le
      rwa [mul_right_comm, hexponent]
    · rename_i hless
      have hexponent : (10 : ℚ) ^ (-((places + 1 : Nat) : Int) + 1) * 10 ^ places = 1 := by
        rw [← zpow_natCast, ← zpow_add₀ (by norm_num)]
        push_cast
        ring_nf
        rw [zpow_zero]
      have hless : (i.middle : ℚ) * 10 ^ places < i.unit := by exact_mod_cast Nat.lt_of_not_le hless
      refine lt_of_mul_lt_mul_right ?_ hpower.le
      rwa [mul_right_comm, hexponent, one_mul]

/-- On the grids that are looked at, what is found has seventeen digits at most, or is the next
    power of ten. -/
theorem le_of_nearest? (hmiddle : 0 < i.middle) (hunit : 0 < i.unit) {n : Nat} (hn : n < 17)
    (h : i.nearest? (i.magnitude - n) = some c) : c ≤ 10 ^ 17 := by
  obtain ⟨p, hp⟩ : ∃ p, p = i.magnitude - n := ⟨_, rfl⟩
  rw [← hp] at h
  obtain ⟨-, hc⟩ := of_nearest? h
  have hstep : 0 < 10 ^ p.toNat * i.unit := Nat.mul_pos (Nat.pow_pos (by decide)) hunit
  have hmiddle : (i.middle : ℚ) < 10 ^ 17 * 10 ^ p * i.unit := by
    have hunit' : (0 : ℚ) < i.unit := by exact_mod_cast hunit
    have hlt := middle_lt hmiddle hunit
    rw [div_lt_iff₀ hunit'] at hlt
    have hpower : (10 : ℚ) ^ (i.magnitude + 1) ≤ 10 ^ 17 * 10 ^ p := by
      rw [← zpow_natCast, ← zpow_add₀ (by norm_num)]
      exact zpow_le_zpow_right₀ (by norm_num) (by push_cast; omega)
    exact hlt.trans_le (mul_le_mul_of_nonneg_right hpower hunit'.le)
  have hbelow : i.middle * 10 ^ (-p).toNat / (10 ^ p.toNat * i.unit) < 10 ^ 17 := by
    rw [Nat.div_lt_iff_lt_mul hstep]
    have hscale : (0 : ℚ) < 10 ^ (-p).toNat := by positivity
    have hscaled : (i.middle : ℚ) * 10 ^ (-p).toNat < 10 ^ 17 * (10 ^ p.toNat * i.unit) := by
      calc (i.middle : ℚ) * 10 ^ (-p).toNat
          < 10 ^ 17 * 10 ^ p * i.unit * 10 ^ (-p).toNat := mul_lt_mul_of_pos_right hmiddle hscale
        _ = 10 ^ 17 * (10 ^ p.toNat * i.unit) := by
            rw [pow_toNat (by norm_num) p]
            ring
    exact_mod_cast hscaled
  omega

end Interval

/-! ### The shortest decimal -/

theorem around_eq (x : Float) :
    Interval.around x =
      { low := (if (mantissaExponent x).1 = 2 ^ 52 ∧ (mantissaExponent x).2 > -1074 then
          4 * (mantissaExponent x).1 - 1 else 4 * (mantissaExponent x).1 - 2) *
            2 ^ ((mantissaExponent x).2 - 2).toNat
        middle := 4 * (mantissaExponent x).1 * 2 ^ ((mantissaExponent x).2 - 2).toNat
        high := (4 * (mantissaExponent x).1 + 2) * 2 ^ ((mantissaExponent x).2 - 2).toNat
        unit := 2 ^ (2 - (mantissaExponent x).2).toNat
        closed := (mantissaExponent x).1 % 2 = 0 } := rfl

/-- The upper end is halfway to the next float. -/
theorem high_around (x : Float) :
    ((Interval.around x).high : ℚ) / (Interval.around x).unit =
      (2 * (mantissaExponent x).1 + 1) * 2 ^ ((mantissaExponent x).2 - 1) := by
  obtain ⟨q, hq⟩ : ∃ q, q = (mantissaExponent x).2 - 2 := ⟨_, rfl⟩
  have hneg : 2 - (mantissaExponent x).2 = -q := by omega
  have hhalf : (mantissaExponent x).2 - 1 = q + 1 := by omega
  simp only [around_eq, hneg, hhalf, ← hq]
  push_cast
  rw [pow_toNat two_ne_zero, zpow_add₀ two_ne_zero, zpow_one]
  have hpos : (2 : ℚ) ^ (-q).toNat ≠ 0 := by positivity
  field_simp
  ring

/-- What the shortest decimal of a float is known to be: nothing was found, or it lies in the
    interval and has seventeen digits at most, or is the next power of ten. -/
theorem shortest_spec (x : Float) :
    shortest x = ⟨0, 0⟩ ∨
      (0 < (shortest x).digits ∧ (shortest x).digits ≤ 10 ^ 17 ∧
        (shortest x).value ≤
          (2 * (mantissaExponent x).1 + 1) * 2 ^ ((mantissaExponent x).2 - 1)) := by
  have hunit : 0 < (Interval.around x).unit := Nat.two_pow_pos _
  simp only [shortest]
  split
  · exact .inl rfl
  · rename_i hmiddle
    have hmiddle := Nat.pos_of_ne_zero hmiddle
    have hmantissa : 0 < (mantissaExponent x).1 := by
      have hfour : 0 < 4 * (mantissaExponent x).1 := Nat.pos_of_mul_pos_right hmiddle
      omega
    have hpower : 0 < 2 ^ ((mantissaExponent x).2 - 2).toNat := Nat.two_pow_pos _
    have hlow : 0 < (Interval.around x).low := by
      rw [around_eq]
      refine Nat.mul_pos ?_ hpower
      split <;> omega
    have hends : (Interval.around x).low ≤ (Interval.around x).high := by
      rw [around_eq]
      refine Nat.mul_le_mul_right _ ?_
      split <;> omega
    rw [← high_around]
    cases hfound : (List.range 17).findSome? fun (n : Nat) =>
        ((Interval.around x).nearest? ((Interval.around x).magnitude - (n : Int))).map
          fun c => strip 17 ⟨c, (Interval.around x).magnitude - (n : Int)⟩ with
    | none => exact .inl rfl
    | some d =>
        right
        obtain ⟨n, hn, hd⟩ := List.exists_of_findSome?_eq_some hfound
        obtain ⟨c, hc, rfl⟩ := Option.map_eq_some_iff.1 hd
        have hholds := (Interval.of_nearest? hc).1
        rw [Option.getD_some, value_strip]
        refine ⟨digits_strip_pos 17 (Interval.pos_of_holds hlow hends hholds),
          (digits_strip_le 17 _).trans
            (Interval.le_of_nearest? hmiddle hunit (List.mem_range.1 hn) hc),
          Interval.value_le_of_holds hunit hends hholds⟩

/-! ### Reading it back -/

open Json.Numeral (scale?)

/-- The mantissa and the exponent of a finite float. -/
theorem mantissaExponent_lt {x : Float} (h : x.isFinite = true) :
    (mantissaExponent x).1 < 2 ^ 53 ∧ (mantissaExponent x).2 < 972 := by
  have hexponent := Binary64.exponent_lt_of_isFinite h
  have hfraction : x.toBits.toNat % 2 ^ 52 < 2 ^ 52 := Nat.mod_lt _ (by decide)
  rw [Binary64.mantissaExponent_eq]
  split <;> constructor <;> simp only [] <;> omega

/-- But for the greatest one and its negative, the upper end for a finite float is not above the
    middle between the two greatest. -/
theorem high_of_not_greatest {x : Float} (hfinite : x.isFinite = true)
    (hx : mantissaExponent x ≠ (2 ^ 53 - 1, 971)) :
    (2 * (mantissaExponent x).1 + 1 : ℚ) * 2 ^ ((mantissaExponent x).2 - 1) ≤
      ((2 ^ 54 - 3) * 2 ^ 970 : Nat) := by
  obtain ⟨hm, hq⟩ := mantissaExponent_lt hfinite
  generalize mantissaExponent x = f at *
  obtain ⟨m, q⟩ := f
  simp only [] at *
  rw [Nat.cast_mul, Nat.cast_pow]
  by_cases htop : q = 971
  · -- Here the mantissa is not the greatest.
    subst htop
    have hmantissa : m ≠ 2 ^ 53 - 1 := by
      rintro rfl
      exact hx rfl
    have hle : 2 * m + 1 ≤ 2 ^ 54 - 3 := by omega
    refine mul_le_mul_of_nonneg_right ?_ (zpow_nonneg zero_le_two _)
    exact_mod_cast hle
  · have hle : 2 * m + 1 ≤ (2 ^ 54 - 3) * 2 := by omega
    have hle : (2 * m + 1 : ℚ) ≤ (2 ^ 54 - 3 : Nat) * 2 := by exact_mod_cast hle
    have hpower : (2 : ℚ) ^ (q - 1) ≤ 2 ^ 969 := by
      rw [← zpow_natCast]
      exact zpow_le_zpow_right₀ one_le_two (by push_cast; omega)
    calc (2 * m + 1 : ℚ) * 2 ^ (q - 1) ≤ (2 ^ 54 - 3 : Nat) * 2 * 2 ^ 969 :=
          mul_le_mul hle hpower (zpow_nonneg zero_le_two _) (by positivity)
      _ = (2 ^ 54 - 3 : Nat) * ((2 : Nat) : ℚ) ^ 970 := by
          rw [mul_assoc, ← pow_succ']
          rfl

theorem shortest_congr {x y : Float} (h : mantissaExponent x = mantissaExponent y) :
    shortest x = shortest y := by
  have haround : Interval.around x = Interval.around y := by rw [around_eq, around_eq, h]
  rw [shortest, haround, shortest]

/-- Up to this number the three roundings of a literal stay below the largest float. -/
theorem scale?_of_le {n e : Nat} (hn : 0 < n) (he : e ≤ 308)
    (hle : n * 10 ^ e ≤ 1797693134862315 * 10 ^ 293) : (scale? n e).isSome = true := by
  refine Binary64.scale?_isSome hn he ?_
  have hbound : ((1797693134862315 * 10 ^ 293 : Nat) : ℚ) * lift ^ 3 < 2 ^ (1024 : Int) :=
    Binary64.lifted_lt (by decide +kernel)
  have hle : (n : ℚ) * 10 ^ e ≤ (1797693134862315 * 10 ^ 293 : Nat) := by exact_mod_cast hle
  exact (mul_le_mul_of_nonneg_right hle (pow_nonneg Binary64.lift_nonneg 3)).trans_lt hbound

theorem le_of_mul_le {n k b c : Nat} (hle : n * c ≤ b) (hlt : b < (k + 1) * c) : n ≤ k :=
  Nat.lt_succ_iff.1 (Nat.lt_of_mul_lt_mul_right (hle.trans_lt hlt))

/-- A literal of up to seventeen digits that is not above the middle between the two greatest
    floats is a float. -/
theorem scale?_of_le_middle {n e : Nat} (hpos : 0 < n) (hdigits : n ≤ 10 ^ 17)
    (hle : n * 10 ^ e ≤ (2 ^ 54 - 3) * 2 ^ 970) : (scale? n e).isSome = true := by
  have he : e ≤ 308 := by
    by_contra hlarge
    have hpower (b : Nat) (hb : b ≤ e) : 10 ^ b ≤ 10 ^ e := Nat.pow_le_pow_right (by decide) hb
    have hdigit : 1 * 10 ^ e ≤ n * 10 ^ e := Nat.mul_le_mul_right _ hpos
    have hlt : (2 ^ 54 - 3) * 2 ^ 970 < 10 ^ 309 := by decide +kernel
    rw [Nat.one_mul] at hdigit
    exact absurd ((hpower 309 (by omega)).trans (hdigit.trans hle)) (Nat.not_le_of_lt hlt)
  -- With a small exponent there is room because there are no more digits. With a greater one
  -- there are fewer, and only at one exponent does the literal come close to the middle.
  rcases Nat.lt_trichotomy e 292 with hlow | rfl | hhigh
  · refine scale?_of_le hpos he ?_
    calc n * 10 ^ e ≤ 10 ^ 17 * 10 ^ 291 :=
          Nat.mul_le_mul hdigits (Nat.pow_le_pow_right (by decide) (by omega))
      _ ≤ 1797693134862315 * 10 ^ 293 := by decide +kernel
  · have hquotient : n ≤ 17976931348623156 := le_of_mul_le hle (by decide +kernel)
    by_cases hroom : n ≤ 17976931348623150
    · refine scale?_of_le hpos he ?_
      calc n * 10 ^ 292 ≤ 17976931348623150 * 10 ^ 292 := Nat.mul_le_mul_right (10 ^ 292) hroom
        _ ≤ 1797693134862315 * 10 ^ 293 := by decide +kernel
    · -- The six decimals that are left are rounded one by one.
      have hall : ∀ k < 6, (scale? (17976931348623151 + k) (292 : Nat)).isSome = true := by
        decide +kernel
      obtain ⟨k, rfl⟩ := Nat.exists_eq_add_of_le (Nat.lt_of_not_le hroom)
      exact hall k (by omega)
  · obtain ⟨k, rfl⟩ := Nat.exists_eq_add_of_lt hhigh
    have hsplit (j : Nat) : n * 10 ^ (k + j) = n * 10 ^ k * 10 ^ j := by
      rw [Nat.pow_add, Nat.mul_assoc]
    have hexponent : 292 + k + 1 = k + 293 := by omega
    rw [hexponent, hsplit] at hle
    have hquotient : n * 10 ^ k ≤ 1797693134862315 := le_of_mul_le hle (by decide +kernel)
    refine scale?_of_le hpos he ?_
    rw [hexponent, hsplit]
    exact Nat.mul_le_mul_right (10 ^ 293) hquotient

/-- The shortest decimal of a finite float is read as a float if it is not a fraction. -/
theorem scale?_shortest {x : Float} (hfinite : x.isFinite = true)
    (hpos : 0 < (shortest x).digits) {e : Nat} (he : (shortest x).exponent = e) :
    (scale? (shortest x).digits e).isSome = true := by
  by_cases hgreatest : mantissaExponent x = (2 ^ 53 - 1, 971)
  · -- The greatest float itself has less room than its shortest decimal needs by the bounds.
    have hsame : mantissaExponent x = mantissaExponent 1.7976931348623157e308 :=
      hgreatest.trans (by decide +kernel)
    have hshortest : shortest 1.7976931348623157e308 = ⟨17976931348623157, 292⟩ := by
      decide +kernel
    rw [shortest_congr hsame, hshortest] at he ⊢
    have he : e = 292 := by
      simp only [] at he
      omega
    rw [he]
    decide +kernel
  · rcases shortest_spec x with hzero | ⟨-, hdigits, hvalue⟩
    · rw [hzero] at hpos
      exact absurd hpos (Nat.lt_irrefl 0)
    · have hle := hvalue.trans (high_of_not_greatest hfinite hgreatest)
      rw [value, he, zpow_natCast] at hle
      exact scale?_of_le_middle hpos hdigits (by exact_mod_cast hle)

end Parley.Decimal
