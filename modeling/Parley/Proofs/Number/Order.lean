/-
  Parley.Proofs.Number.Order

  The order of floats. The comparison of two finite floats is turned around by exchanging them
  (`compare_swap`), so of two finite floats exactly one is less, or they are equal, or it is
  greater (`lt_eq_gt_of_isFinite`). Equality of floats is symmetric and transitive, and not
  reflexive for what is not a number.
-/
import Mathlib

namespace Parley.Binary64

open Float.Model (UnpackedFloat)

variable {x y z : Float}

theorem lt_iff_compare : x < y ↔ x.toModel.unpack.compare y.toModel.unpack = some .lt := by
  show decide (x.toModel < y.toModel) = true ↔ _
  rw [decide_eq_true_iff]
  exact beq_iff_eq

theorem beq_iff_compare :
    (x == y) = true ↔ x.toModel.unpack.compare y.toModel.unpack = some .eq := by
  show (x.toModel.unpack.compare y.toModel.unpack == some .eq) = true ↔ _
  exact beq_iff_eq

/-- Two finite floats can be compared, and exchanging them turns the comparison around. -/
theorem compare_swap {a b : UnpackedFloat} (ha : a.isFinite = true) (hb : b.isFinite = true) :
    ∃ o, a.compare b = some o ∧ b.compare a = some o.swap := by
  cases a with
  | notANumber | infinity => cases ha
  | zero s =>
      cases b with
      | notANumber | infinity => cases hb
      | zero t => exact ⟨_, rfl, rfl⟩
      | finite t n r hn => cases t <;> exact ⟨_, rfl, rfl⟩
  | finite s m q hm =>
      cases b with
      | notANumber | infinity => cases hb
      | zero t => cases s <;> exact ⟨_, rfl, rfl⟩
      | finite t n r hn =>
          -- Of one sign, the exponents decide, and the mantissas where these are equal.
          have hswap :
              (compare r q).then (compare n m) = ((compare q r).then (compare m n)).swap := by
            rw [Ordering.swap_then, Std.OrientedOrd.eq_swap (a := r),
              Std.OrientedOrd.eq_swap (a := n)]
          cases s <;> cases t
          · exact ⟨_, rfl, by rw [UnpackedFloat.compare, hswap]⟩
          · exact ⟨_, rfl, rfl⟩
          · exact ⟨_, rfl, rfl⟩
          · exact ⟨_, rfl, congrArg some hswap⟩

/-- Of two finite floats one is less, or they are equal, or it is greater. -/
theorem lt_eq_gt_of_isFinite (hx : x.isFinite = true) (hy : y.isFinite = true) :
    [decide (x < y), x == y, decide (x > y)].count true = 1 := by
  obtain ⟨o, hxy, hyx⟩ := compare_swap (a := x.toModel.unpack) (b := y.toModel.unpack) hx hy
  have hlt : decide (x < y) = (o == .lt) := by
    rw [Bool.eq_iff_iff, decide_eq_true_iff, lt_iff_compare, hxy, Option.some_inj, beq_iff_eq]
  have heq : (x == y) = (o == .eq) := by
    rw [Bool.eq_iff_iff, beq_iff_compare, hxy, Option.some_inj, beq_iff_eq]
  have hgt : decide (x > y) = (o.swap == .lt) := by
    rw [Bool.eq_iff_iff, decide_eq_true_iff, gt_iff_lt, lt_iff_compare, hyx, Option.some_inj,
      beq_iff_eq]
  rw [hlt, heq, hgt]
  cases o <;> rfl

theorem beq_symm (h : (x == y) = true) : (y == x) = true := by
  obtain ⟨hx, hy, heq⟩ := Float.beq_iff_ne_nan_and_eq.1 h
  refine Float.beq_iff_ne_nan_and_eq.2 ⟨hy, hx, ?_⟩
  rcases heq with heq | ⟨hzero, hzero'⟩ | ⟨hzero, hzero'⟩
  · exact .inl heq.symm
  · exact .inr (.inr ⟨hzero', hzero⟩)
  · exact .inr (.inl ⟨hzero', hzero⟩)

theorem beq_trans (hxy : (x == y) = true) (hyz : (y == z) = true) : (x == z) = true := by
  obtain ⟨hx, -, heq⟩ := Float.beq_iff_ne_nan_and_eq.1 hxy
  obtain ⟨-, hz, heq'⟩ := Float.beq_iff_ne_nan_and_eq.1 hyz
  exact Float.beq_iff_ne_nan_and_eq.2 ⟨hx, hz, by grind⟩

end Parley.Binary64
