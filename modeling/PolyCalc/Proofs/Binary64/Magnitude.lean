import PolyCalc.Proofs.Binary64.Absorption

/-!
# Magnitudes and Differences

The magnitude of a double has its parts without the sign. So it does not tell a double from its
negative, nor one zero from the other, and neither does the magnitude of a difference: operands
may change places, and a zero may be replaced by the other one. The differences themselves may
have another sign, and zero for one of their values.

Magnitudes are compared like numbers, except that the absence of a number is neither less than
anything nor equal to it. No magnitude is below zero, so what is at most zero is zero.

## Theorems

* `unpack_magnitude`: The parts of a magnitude.
* `abs_eq_of_unlessZero_eq`: Doubles of which the same remains have the same magnitude.
* `isFinite_iff`: Finite doubles are numbers and not infinite.
* `unlessZero_subtract`: Differences of such doubles.
* `abs_subtract_commutes`: The operands of a difference may change places.
* `abs_le_iff_of_isZero`: A magnitude up to zero.
* `exists_compare_magnitudes`: Two magnitudes that are numbers have an order.
-/

namespace PolyCalc

namespace Binary64

open Float.Model (UnpackedFloat Format)
open Float.Model.UnpackedFloat
open Coefficient (LawfulSums unlessZero unlessZero_add unlessZero_eq_iff unlessZero_neg)

variable {x y : Float}

/-! ## Magnitudes -/

theorem unpack_magnitude (x : Float) : x.abs.toModel.unpack = x.toModel.unpack.abs := by
  have hmodel : x.abs.toModel = Float.Model.pack x.toModel.unpack.abs := rfl
  cases hparts : x.toModel.unpack with
  | notANumber =>
      rw [hmodel, hparts]
      rfl
  | infinity s =>
      rw [hmodel, hparts]
      exact unpack_pack_infinity .positive
  | zero s =>
      rw [hmodel, hparts]
      exact unpack_pack_zero .positive
  | finite s m e hpos => exact unpack_abs hparts

theorem isNaN_abs (x : Float) : x.abs.isNaN = x.isNaN := by
  have hnan (z : Float) : z.isNaN = z.toModel.unpack.isNaN := rfl
  rw [hnan, hnan, unpack_magnitude]
  cases x.toModel.unpack <;> rfl

theorem isFinite_abs (x : Float) : x.abs.isFinite = x.isFinite := by
  have hfinite (z : Float) : z.isFinite = z.toModel.unpack.isFinite := rfl
  rw [hfinite, hfinite, unpack_magnitude]
  cases x.toModel.unpack <;> rfl

theorem abs_neg (x : Float) : (-x).abs = x.abs := by
  refine eq_of_unpack_eq ?_
  rw [unpack_magnitude, unpack_negative, unpack_magnitude]
  cases x.toModel.unpack <;> rfl

theorem abs_of_isZero (h : Coefficient.isZero x = true) : x.abs = 0 := by
  obtain ⟨s, hs⟩ := (isZero_iff x).1 h
  refine eq_of_unpack_eq ?_
  rw [unpack_magnitude, hs]
  rfl

theorem abs_eq_of_unlessZero_eq (h : unlessZero x = unlessZero y) : x.abs = y.abs := by
  rcases unlessZero_eq_iff.1 h with rfl | ⟨hx, hy⟩
  · rfl
  · rw [abs_of_isZero hx, abs_of_isZero hy]

theorem isFinite_iff : x.isFinite = true ↔ x.isInf = false ∧ x.isNaN = false := by
  have hfinite : x.isFinite = x.toModel.unpack.isFinite := rfl
  have hinf : x.isInf = x.toModel.unpack.isInf := rfl
  have hnan : x.isNaN = x.toModel.unpack.isNaN := rfl
  rw [hfinite, hinf, hnan]
  cases x.toModel.unpack with
  | notANumber => exact iff_of_false Bool.false_ne_true fun h => nomatch h.2
  | infinity s => exact iff_of_false Bool.false_ne_true fun h => nomatch h.1
  | zero s | finite s m e hpos => exact iff_of_true rfl ⟨rfl, rfl⟩

/-! ## Differences -/

theorem unlessZero_subtract {x' y' : Float} (hx : unlessZero x = unlessZero x')
    (hy : unlessZero y = unlessZero y') : unlessZero (x - y) = unlessZero (x' - y') := by
  rw [subtract_eq_add_neg, subtract_eq_add_neg]
  refine unlessZero_add hx ?_
  rw [unlessZero_neg, hy, ← unlessZero_neg]

/-- A difference with its operands in the other order is the negative, up to the sign of a
    zero. -/
theorem abs_subtract_commutes (x y : Float) : (x - y).abs = (y - x).abs := by
  have hnegative : unlessZero (y - x) = unlessZero (-(x - y)) := by
    rw [subtract_eq_add_neg, subtract_eq_add_neg, ← unlessZero_add_neg, neg_neg_eq_self,
      add_commutes]
  rw [abs_eq_of_unlessZero_eq hnegative, abs_neg]

theorem isNaN_subtract_of_left (h : x.isNaN = true) (y : Float) : (x - y).isNaN = true := by
  rw [subtract_eq_add_neg, add_eq_of_isNaN h]
  exact h

theorem isNaN_subtract_of_right (x : Float) (h : y.isNaN = true) : (x - y).isNaN = true := by
  rw [← isNaN_abs, abs_subtract_commutes, isNaN_abs]
  exact isNaN_subtract_of_left h x

/-! ## Order -/

theorem le_iff (x y : Float) :
    x ≤ y ↔ (x.toModel.unpack.compare y.toModel.unpack).any Ordering.isLE = true :=
  decide_eq_true_iff

theorem lt_iff (x y : Float) :
    x < y ↔ x.toModel.unpack.compare y.toModel.unpack = some .lt :=
  decide_eq_true_iff.trans beq_iff_eq

/-- What is not a number is at most nothing. -/
theorem isNaN_eq_false_of_le (h : x ≤ y) : x.isNaN = false := by
  have hnan : x.isNaN = x.toModel.unpack.isNaN := rfl
  rw [le_iff] at h
  rw [hnan]
  cases hparts : x.toModel.unpack with
  | notANumber =>
      rw [hparts] at h
      cases h
  | infinity s | zero s | finite s m e hpos => rfl

/-- A magnitude is at most zero if it is zero. -/
theorem abs_le_iff_of_isZero (hy : Coefficient.isZero y = true) :
    x.abs ≤ y ↔ Coefficient.isZero x = true := by
  obtain ⟨s, hs⟩ := (isZero_iff y).1 hy
  rw [le_iff, isZero_iff, unpack_magnitude, hs]
  cases x.toModel.unpack with
  | notANumber => exact iff_of_false Bool.false_ne_true (by rintro ⟨t, ht⟩; cases ht)
  | infinity t => exact iff_of_false Bool.false_ne_true (by rintro ⟨t, ht⟩; cases ht)
  | zero t => exact iff_of_true rfl ⟨t, rfl⟩
  | finite t m e hpos => exact iff_of_false Bool.false_ne_true (by rintro ⟨t, ht⟩; cases ht)

/-- Magnitudes are compared without regard to their signs, and backwards by the opposite
    order. -/
theorem exists_unpacked_compare_abs {x y : UnpackedFloat} (hx : x.isNaN = false)
    (hy : y.isNaN = false) :
    ∃ o : Ordering, x.abs.compare y.abs = some o ∧ y.abs.compare x.abs = some o.swap
      ∧ (o = .eq → x.abs = y.abs) := by
  cases x <;> cases y
  case finite.finite s m e hm t n f hn =>
    refine ⟨(compare e f).then (compare m n), rfl, ?_, fun heq => ?_⟩
    · have hswap : (compare f e).then (compare n m)
          = ((compare e f).then (compare m n)).swap := by
        rw [Ordering.swap_then, Int.compare_swap, Nat.compare_swap]
      exact congrArg some hswap
    · obtain ⟨hmn, hef⟩ := eq_of_compare_finite heq
      exact finite_congr rfl hmn hef
  case infinity.infinity | zero.zero => exact ⟨.eq, rfl, rfl, fun _ => rfl⟩
  case infinity.zero | infinity.finite | finite.zero => exact ⟨.gt, rfl, rfl, nofun⟩
  case zero.infinity | finite.infinity | zero.finite => exact ⟨.lt, rfl, rfl, nofun⟩
  case infinity.notANumber | zero.notANumber | finite.notANumber => cases hy
  all_goals cases hx

/-- Two magnitudes that are numbers have an order. -/
theorem abs_eq_of_not_lt (hx : x.isNaN = false) (hy : y.isNaN = false) (hxy : ¬x.abs < y.abs)
    (hyx : ¬y.abs < x.abs) : x.abs = y.abs := by
  rw [lt_iff, unpack_magnitude, unpack_magnitude] at hxy hyx
  obtain ⟨o, ho, hswap, heq⟩ := exists_unpacked_compare_abs hx hy
  rw [ho, Option.some.injEq] at hxy
  rw [hswap, Option.some.injEq, Ordering.swap_eq_lt] at hyx
  refine eq_of_unpack_eq ?_
  rw [unpack_magnitude, unpack_magnitude]
  cases o with
  | lt => exact absurd rfl hxy
  | eq => exact heq rfl
  | gt => exact absurd rfl hyx

theorem not_abs_lt_of_abs_lt (hx : x.isNaN = false) (hy : y.isNaN = false)
    (hxy : x.abs < y.abs) : ¬y.abs < x.abs := by
  rw [lt_iff, unpack_magnitude, unpack_magnitude] at hxy ⊢
  obtain ⟨o, ho, hswap, -⟩ := exists_unpacked_compare_abs hx hy
  rw [ho, Option.some.injEq] at hxy
  rw [hswap, hxy]
  exact nofun

end Binary64

end PolyCalc
