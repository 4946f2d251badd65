/-
  Parley.Proofs.Number.Distinct

  The shortest decimal of a finite float says which float it is, but for the sign. It lies in the
  interval of the reals that round to the float: an interval is wider than the last of the grids
  that are looked at is fine, so something is found there at the latest (`contains_shortest`). The
  intervals of two floats have no real in common, for where two of them touch one is open
  (`eq_of_contains`).
-/
import Mathlib
import Parley.Proofs.Number.Shortest

namespace Parley.Decimal

/-! ### The grids -/

namespace Interval

variable {i : Interval} {p : Int}

/-- The power of ten of the magnitude is not above the middle. -/
theorem pow_magnitude_le (hmiddle : 0 < i.middle) (hunit : 0 < i.unit) :
    (10 : ℚ) ^ i.magnitude ≤ i.middle / i.unit := by
  have hunit' : (0 : ℚ) < i.unit := by exact_mod_cast hunit
  rw [le_div_iff₀ hunit', magnitude]
  -- From 1 on the magnitude counts digits of the quotient, below 1 places of it.
  split
  · rename_i hle
    have hdigits := pow_digitCount_le (Nat.div_pos hle hunit)
    have hle : 10 ^ (digitCount (i.middle / i.unit) - 1) * i.unit ≤ i.middle :=
      (Nat.le_div_iff_mul_le hunit).1 hdigits
    have hone : (digitCount (i.middle / i.unit) : Int) - 1 =
        (digitCount (i.middle / i.unit) - 1 : Nat) := by
      have hpos := digitCount_pos (i.middle / i.unit)
      omega
    rw [hone, zpow_natCast]
    exact_mod_cast hle
  · obtain ⟨places, hplaces⟩ : ∃ n, digitCount (i.unit / i.middle) = n + 1 :=
      ⟨_, (Nat.succ_pred_eq_of_pos (digitCount_pos _)).symm⟩
    have hscaled (n : Nat) (h : i.unit ≤ i.middle * 10 ^ n) :
        (10 : ℚ) ^ (-(n : Int)) * i.unit ≤ i.middle := by
      have hpower : (0 : ℚ) < 10 ^ n := by positivity
      rw [zpow_neg, zpow_natCast, inv_mul_le_iff₀ hpower, mul_comm]
      exact_mod_cast h
    simp only [hplaces, Nat.add_sub_cancel, Nat.pow_eq]
    split
    · rename_i hle
      have hexponent : -(((places + 1 : Nat) : Int) - 1) = -(places : Int) := by omega
      rw [hexponent]
      exact hscaled places hle
    · refine hscaled (places + 1) ?_
      have hdigits := lt_pow_digitCount (i.unit / i.middle)
      rw [hplaces, Nat.div_lt_iff_lt_mul hmiddle] at hdigits
      rw [Nat.mul_comm]
      exact hdigits.le

/-- On a grid that is finer than the interval is wide, a neighbour of the middle lies in the
    interval. -/
theorem nearest?_isSome (hunit : 0 < i.unit) (hlow : i.low < i.middle) (hhigh : i.middle < i.high)
    (hfine : (i.low : ℚ) / i.unit + 10 ^ p < i.high / i.unit) : (i.nearest? p).isSome = true := by
  have hunit' : (0 : ℚ) < i.unit := by exact_mod_cast hunit
  have hscale : (0 : ℚ) < 10 ^ (-p).toNat := by positivity
  have hlow' : (i.low : ℚ) / i.unit < i.middle / i.unit := by gcongr
  have hhigh' : (i.middle : ℚ) / i.unit < i.high / i.unit := by gcongr
  obtain ⟨below, hbelow⟩ :
      ∃ n, n = i.middle * 10 ^ (-p).toNat / (10 ^ p.toNat * i.unit) := ⟨_, rfl⟩
  have hstep : 0 < 10 ^ p.toNat * i.unit := Nat.mul_pos (Nat.pow_pos (by decide)) hunit
  have hpoint (c : Nat) : (c * (10 ^ p.toNat * i.unit) : ℚ) =
      c * 10 ^ p * i.unit * 10 ^ (-p).toNat := by
    rw [pow_toNat (by norm_num) p]
    ring
  -- The middle is between the two neighbours.
  have hle : (below * 10 ^ p : ℚ) ≤ i.middle / i.unit := by
    have hle : below * (10 ^ p.toNat * i.unit) ≤ i.middle * 10 ^ (-p).toNat :=
      hbelow ▸ Nat.div_mul_le_self _ _
    rw [le_div_iff₀ hunit', ← mul_le_mul_iff_of_pos_right hscale, ← hpoint]
    exact_mod_cast hle
  have hlt : (i.middle / i.unit : ℚ) < (below + 1 : Nat) * 10 ^ p := by
    have hlt : i.middle * 10 ^ (-p).toNat < (below + 1) * (10 ^ p.toNat * i.unit) :=
      (Nat.div_lt_iff_lt_mul hstep).1 (hbelow ▸ Nat.lt_succ_self _)
    rw [div_lt_iff₀ hunit', ← mul_lt_mul_iff_of_pos_right hscale, ← hpoint]
    exact_mod_cast hlt
  have hfound : i.holds below p = true ∨ i.holds (below + 1) p = true := by
    by_contra hnone
    obtain ⟨hbelow, habove⟩ := not_or.1 hnone
    rw [holds_iff hunit] at hbelow habove
    have hbelow : ¬ (i.low / i.unit : ℚ) < below * 10 ^ p := fun h =>
      hbelow (.inl ⟨h, hle.trans_lt hhigh'⟩)
    have habove : ¬ ((below + 1 : Nat) * 10 ^ p : ℚ) < i.high / i.unit := fun h =>
      habove (.inl ⟨hlow'.trans hlt, h⟩)
    push_cast at habove
    linarith
  simp only [nearest?, Nat.pow_eq, ← hbelow]
  cases hdown : i.holds below p <;> cases hup : i.holds (below + 1) p
  · exact absurd hfound (by simp [hdown, hup])
  · rfl
  · rfl
  · simp only []
    split <;> rfl

end Interval

/-! ### The intervals of floats -/

/-- Mantissa and exponent as a finite float has them that is not zero. -/
structure Stored (m : Nat) (q : Int) : Prop where
  pos : 0 < m
  high : m < 2 ^ 53
  least : -1074 ≤ q
  full : -1074 < q → 2 ^ 52 ≤ m

/-- The lower end of the interval, in quarters of the last place. -/
def lowerQuarters (m : Nat) (q : Int) : Nat :=
  if m = 2 ^ 52 ∧ q > -1074 then 4 * m - 1 else 4 * m - 2

/-- A number of quarters of the last place. -/
theorem quarters_div (n : Nat) (q : Int) :
    ((n * 2 ^ (q - 2).toNat : Nat) : ℚ) / (2 ^ (2 - q).toNat : Nat) = n * 2 ^ (q - 2) := by
  have hneg : 2 - q = -(q - 2) := by omega
  rw [hneg, div_eq_iff (by positivity)]
  push_cast
  rw [pow_toNat two_ne_zero]
  ring

section

variable (x : Float)

theorem low_around : ((Interval.around x).low : ℚ) / (Interval.around x).unit =
    lowerQuarters (mantissaExponent x).1 (mantissaExponent x).2 *
      2 ^ ((mantissaExponent x).2 - 2) := by
  rw [around_eq, ← lowerQuarters]
  exact quarters_div _ _

theorem middle_around : ((Interval.around x).middle : ℚ) / (Interval.around x).unit =
    (4 * (mantissaExponent x).1 : Nat) * 2 ^ ((mantissaExponent x).2 - 2) := by
  rw [around_eq]
  exact quarters_div _ _

theorem high_around_quarters : ((Interval.around x).high : ℚ) / (Interval.around x).unit =
    (4 * (mantissaExponent x).1 + 2 : Nat) * 2 ^ ((mantissaExponent x).2 - 2) := by
  rw [around_eq]
  exact quarters_div _ _

theorem unit_around_pos : 0 < (Interval.around x).unit := Nat.two_pow_pos _

/-- An interval to which the ends belong is that of an even mantissa. -/
theorem even_of_closed (h : (Interval.around x).closed = true) : (mantissaExponent x).1 % 2 = 0 :=
  of_decide_eq_true h

end

variable {m n : Nat} {q r : Int}

theorem Stored.lowerQuarters_bounds (h : Stored m q) :
    4 * m - 2 ≤ lowerQuarters m q ∧ lowerQuarters m q < 4 * m := by
  have hpos := h.pos
  rw [lowerQuarters]
  split <;> omega

/-- From one interval on, those that follow lie above it. Between two even mantissas there is a
    gap. -/
theorem quarters_le (h : Stored m q) (h' : Stored n r) (hbefore : q < r ∨ q = r ∧ m < n) :
    ∃ k : Nat, r = q + k ∧ 4 * m + 2 ≤ lowerQuarters n r * 2 ^ k ∧
      (m % 2 = 0 → n % 2 = 0 → 4 * m + 2 < lowerQuarters n r * 2 ^ k) := by
  have hhigh := h.high
  rcases hbefore with hlt | ⟨rfl, hlt⟩
  · -- With a greater exponent the mantissa is full, and one of its quarters is two or more here.
    have hleast := h.least
    have hfull := h'.full (by omega)
    obtain ⟨k, rfl⟩ : ∃ k : Nat, r = q + k := ⟨(r - q).toNat, by omega⟩
    have hlower : 2 ^ 54 - 1 ≤ lowerQuarters n (q + k) := by
      rw [lowerQuarters]
      split <;> omega
    have hdouble : 2 ^ 1 ≤ 2 ^ k := Nat.pow_le_pow_right (by decide) (by omega)
    have hmul : (2 ^ 54 - 1) * 2 ^ 1 ≤ lowerQuarters n (q + k) * 2 ^ k :=
      Nat.mul_le_mul hlower hdouble
    refine ⟨k, rfl, ?_, fun _ _ => ?_⟩ <;> omega
  · refine ⟨0, by omega, ?_, fun _ _ => ?_⟩ <;> rw [lowerQuarters] <;> split <;> omega

variable {x y : Float}

/-- The float is finite and not zero. -/
abbrev StoredIn (x : Float) : Prop := Stored (mantissaExponent x).1 (mantissaExponent x).2

theorem around_ordered (h : StoredIn x) :
    (Interval.around x).low < (Interval.around x).middle ∧
      (Interval.around x).middle < (Interval.around x).high := by
  have hpower : 0 < 2 ^ ((mantissaExponent x).2 - 2).toNat := Nat.two_pow_pos _
  rw [around_eq]
  exact ⟨Nat.mul_lt_mul_of_pos_right h.lowerQuarters_bounds.2 hpower,
    Nat.mul_lt_mul_of_pos_right (by omega) hpower⟩

theorem high_le_low (hx : StoredIn x) (hy : StoredIn y)
    (hbefore : (mantissaExponent x).2 < (mantissaExponent y).2 ∨
      (mantissaExponent x).2 = (mantissaExponent y).2 ∧
        (mantissaExponent x).1 < (mantissaExponent y).1) :
    ((Interval.around x).high : ℚ) / (Interval.around x).unit ≤
        (Interval.around y).low / (Interval.around y).unit ∧
      ((mantissaExponent x).1 % 2 = 0 → (mantissaExponent y).1 % 2 = 0 →
        ((Interval.around x).high : ℚ) / (Interval.around x).unit <
          (Interval.around y).low / (Interval.around y).unit) := by
  obtain ⟨k, hk, hends, hgap⟩ := quarters_le hx hy hbefore
  have hpower : (0 : ℚ) < 2 ^ ((mantissaExponent x).2 - 2) := by positivity
  have hexponent : (mantissaExponent y).2 - 2 = (mantissaExponent x).2 - 2 + k := by omega
  rw [high_around_quarters, low_around, hexponent, zpow_add₀ two_ne_zero, zpow_natCast,
    mul_comm ((2 : ℚ) ^ ((mantissaExponent x).2 - 2)), ← mul_assoc]
  constructor
  · refine mul_le_mul_of_nonneg_right ?_ hpower.le
    exact_mod_cast hends
  · intro hm hn
    refine mul_lt_mul_of_pos_right ?_ hpower
    exact_mod_cast hgap hm hn

/-- The interval of a float ends before that of a greater one begins. -/
theorem not_contains_both (hx : StoredIn x) (hy : StoredIn y)
    (hbefore : (mantissaExponent x).2 < (mantissaExponent y).2 ∨
      (mantissaExponent x).2 = (mantissaExponent y).2 ∧
        (mantissaExponent x).1 < (mantissaExponent y).1) {v : ℚ}
    (hv : (Interval.around x).Contains v) : ¬ (Interval.around y).Contains v := by
  intro hv'
  obtain ⟨hxlow, hxhigh⟩ := around_ordered hx
  obtain ⟨hylow, hyhigh⟩ := around_ordered hy
  obtain ⟨hle, hlt⟩ := high_le_low hx hy hbefore
  have hbelow := hv.le_high (hxlow.trans hxhigh).le
  have habove := hv'.low_le (hylow.trans hyhigh).le
  -- So the number is an end of both intervals, and both are closed.
  have hx' := even_of_closed x (hv.closed_of_eq (.inr (le_antisymm hbelow (hle.trans habove))))
  have hy' := even_of_closed y (hv'.closed_of_eq (.inl (le_antisymm (hbelow.trans hle) habove)))
  exact absurd (habove.trans hbelow) (not_le_of_gt (hlt hx' hy'))

/-- No number rounds to two floats that are more than their signs apart. -/
theorem eq_of_contains (hx : StoredIn x) (hy : StoredIn y) {v : ℚ}
    (hv : (Interval.around x).Contains v) (hv' : (Interval.around y).Contains v) :
    mantissaExponent x = mantissaExponent y := by
  by_contra hne
  have hne : ¬ ((mantissaExponent x).1 = (mantissaExponent y).1 ∧
      (mantissaExponent x).2 = (mantissaExponent y).2) := fun h => hne (Prod.ext h.1 h.2)
  have horder : ((mantissaExponent x).2 < (mantissaExponent y).2 ∨
        (mantissaExponent x).2 = (mantissaExponent y).2 ∧
          (mantissaExponent x).1 < (mantissaExponent y).1) ∨
      ((mantissaExponent y).2 < (mantissaExponent x).2 ∨
        (mantissaExponent y).2 = (mantissaExponent x).2 ∧
          (mantissaExponent y).1 < (mantissaExponent x).1) := by omega
  rcases horder with hbefore | hbefore
  · exact not_contains_both hx hy hbefore hv hv'
  · exact not_contains_both hy hx hbefore hv' hv

/-! ### The shortest decimal -/

/-- The interval is wider than seventeen digits are fine. -/
theorem fine_at_seventeen (h : StoredIn x) :
    ((Interval.around x).low : ℚ) / (Interval.around x).unit +
        10 ^ ((Interval.around x).magnitude - (16 : Nat)) <
      (Interval.around x).high / (Interval.around x).unit := by
  have hpower : (0 : ℚ) < 2 ^ ((mantissaExponent x).2 - 2) := by positivity
  have hmiddle : 0 < (Interval.around x).middle :=
    (Nat.zero_le _).trans_lt (around_ordered h).1
  have hmagnitude := Interval.pow_magnitude_le hmiddle (unit_around_pos x)
  rw [middle_around] at hmagnitude
  -- Four mantissas and sixteen digits, in quarters of the last place.
  have hquarters : 4 * (mantissaExponent x).1 +
      lowerQuarters (mantissaExponent x).1 (mantissaExponent x).2 * 10 ^ 16 <
        (4 * (mantissaExponent x).1 + 2) * 10 ^ 16 := by
    have hpos := h.pos
    have hhigh := h.high
    rw [lowerQuarters]
    split <;> omega
  have hquarters : ((4 * (mantissaExponent x).1 : Nat) : ℚ) +
      lowerQuarters (mantissaExponent x).1 (mantissaExponent x).2 * 10 ^ 16 <
        (4 * (mantissaExponent x).1 + 2 : Nat) * 10 ^ 16 := by exact_mod_cast hquarters
  have hscaled := mul_lt_mul_of_pos_right hquarters hpower
  rw [low_around, high_around_quarters, zpow_sub₀ (a := (10 : ℚ)) (by norm_num), zpow_natCast]
  generalize (2 : ℚ) ^ ((mantissaExponent x).2 - 2) = place at *
  generalize (10 : ℚ) ^ (Interval.around x).magnitude = power at *
  linarith

/-- The shortest decimal of a float rounds to it. -/
theorem contains_shortest (h : StoredIn x) :
    (Interval.around x).Contains (shortest x).value := by
  obtain ⟨hlow, hhigh⟩ := around_ordered h
  have hmiddle : 0 < (Interval.around x).middle := (Nat.zero_le _).trans_lt hlow
  have hunit := unit_around_pos x
  -- Something is found, if only on the last grid.
  have hlast := Interval.nearest?_isSome hunit hlow hhigh (fine_at_seventeen h)
  simp only [shortest, if_neg hmiddle.ne']
  cases hfound : (List.range 17).findSome? fun (n : Nat) =>
      ((Interval.around x).nearest? ((Interval.around x).magnitude - (n : Int))).map
        fun c => strip 17 ⟨c, (Interval.around x).magnitude - (n : Int)⟩ with
  | none =>
      have hnone := List.findSome?_eq_none_iff.1 hfound 16 (by decide)
      rw [Option.map_eq_none_iff] at hnone
      rw [hnone] at hlast
      cases hlast
  | some d =>
      obtain ⟨n, -, hd⟩ := List.exists_of_findSome?_eq_some hfound
      obtain ⟨c, hc, rfl⟩ := Option.map_eq_some_iff.1 hd
      rw [Option.getD_some, value_strip]
      exact (Interval.holds_iff hunit).1 (Interval.of_nearest? hc).1

/-! ### Floats -/

theorem zero_or_stored (hfinite : x.isFinite = true) :
    mantissaExponent x = (0, -1074) ∨ StoredIn x := by
  rcases Binary64.finite_cases hfinite with (rfl | rfl) | ⟨hpos, hlt, hq⟩ | hnormal
  · exact .inl (by decide +kernel)
  · exact .inl (by decide +kernel)
  · exact .inr ⟨hpos, by omega, by omega, by omega⟩
  · exact .inr ⟨hnormal.pos, hnormal.high, hnormal.least, fun _ => hnormal.low⟩

theorem value_shortest_of_zero (h : mantissaExponent x = (0, -1074)) : (shortest x).value = 0 := by
  have hmiddle : (Interval.around x).middle = 0 := by
    rw [around_eq, h]
    rfl
  rw [shortest, if_pos hmiddle, value]
  norm_num

theorem value_shortest_pos (h : StoredIn x) : 0 < (shortest x).value := by
  obtain ⟨hlow, hhigh⟩ := around_ordered h
  have hcontains := contains_shortest h
  have hbounds := h.lowerQuarters_bounds
  have hpos := h.pos
  have hlower : 0 < lowerQuarters (mantissaExponent x).1 (mantissaExponent x).2 := by omega
  have hlower : (0 : ℚ) < lowerQuarters (mantissaExponent x).1 (mantissaExponent x).2 := by
    exact_mod_cast hlower
  refine lt_of_lt_of_le ?_ (hcontains.low_le (hlow.trans hhigh).le)
  rw [low_around]
  positivity

/-- The shortest decimal determines the float but for its sign. -/
theorem mantissaExponent_of_shortest (hx : x.isFinite = true) (hy : y.isFinite = true)
    (h : (shortest x).value = (shortest y).value) : mantissaExponent x = mantissaExponent y := by
  -- Zero is the only float with the decimal 0; the decimals of the others lie in their intervals.
  rcases zero_or_stored hx with hzero | hstored <;> rcases zero_or_stored hy with hzero' | hstored'
  · rw [hzero, hzero']
  · rw [value_shortest_of_zero hzero] at h
    exact absurd h (value_shortest_pos hstored').ne
  · rw [value_shortest_of_zero hzero'] at h
    exact absurd h (value_shortest_pos hstored).ne'
  · refine eq_of_contains hstored hstored' (contains_shortest hstored) ?_
    rw [h]
    exact contains_shortest hstored'

/-- Sign, mantissa and exponent are all there is to a float. -/
theorem eq_of_mantissaExponent (hsign : isNegative x = isNegative y)
    (h : mantissaExponent x = mantissaExponent y) : x = y := by
  have hx := x.toBits.toNat_lt
  have hy := y.toBits.toNat_lt
  have hsign : x.toBits.toNat / 2 ^ 63 = 1 ↔ y.toBits.toNat / 2 ^ 63 = 1 :=
    decide_eq_decide.1 hsign
  rw [Binary64.mantissaExponent_eq, Binary64.mantissaExponent_eq] at h
  -- The bits are the sign, the exponent and the mantissa, one behind the other.
  refine Float.toBits_inj.1 (UInt64.toNat_inj.1 ?_)
  split at h <;> split at h <;> obtain ⟨hm, hq⟩ := Prod.mk.inj h <;> omega

end Parley.Decimal
