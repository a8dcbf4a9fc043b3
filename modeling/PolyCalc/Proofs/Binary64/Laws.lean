import PolyCalc.Proofs.Binary64.Doubles
import PolyCalc.Proofs.Binary64.Nearest

/-!
# Laws That Doubles Obey

Doubles are added and multiplied in either order with the same result. A zero behind or
in front of a double that is no zero changes nothing, and from this it follows that
two doubles which are added to zero one after the other have the same sum either way,
a negative zero included. There are no laws for the order of three.

The number that a double is determines the double, apart from the sign of a zero. For
the doubles that are neither zero nor infinite this rests on their parts being
canonical: the bits can be computed from the number.

## Main definitions

* `toRat?`: The number that a double is.
* `signOfRat`: The sign of a double that is a number.

## Theorems

* `add_commutes`, `multiply_commutes`: Doubles are added and multiplied in any order.
* `add_eq_of_isZero`: A zero in front of another double changes nothing.
* `zero_add_of_isZero`: A zero behind zero is the positive one.
* `zero_add_add_commutes`: Two doubles behind a zero.
* `unpack_of_toRat?`: The parts of a double from the number that it is.
* `isZero_iff_of_toRat?`: The doubles that are the number zero.
* `eq_of_toRat?_eq`: Doubles that are the same number, which is not zero, are equal.
-/

namespace PolyCalc

namespace Binary64

open Float.Model (UnpackedFloat Format)
open Float.Model.UnpackedFloat

/-! ## Order of operands -/

section Finite

variable (spec : Format) (s t : Sign) (m n : Nat) (e f : Int) (hm : 0 < m) (hn : 0 < n)

theorem unpacked_add_finite : UnpackedFloat.add spec (.finite s m e hm) (.finite t n f hn)
    = normalize spec (s.apply (decreaseExponent m e (min e f)).1
      + t.apply (decreaseExponent n f (min e f)).1) (min e f) .positive := rfl

theorem unpacked_multiply_finite : UnpackedFloat.mul spec (.finite s m e hm) (.finite t n f hn)
    = roundWithAccuracy spec (s * t) (m * n) (e + f) .exact := rfl

end Finite

theorem unpacked_add_commutes (spec : Format) (x y : UnpackedFloat) :
    UnpackedFloat.add spec x y = UnpackedFloat.add spec y x := by
  cases x <;> cases y
  -- Infinities and zeros decide about the result by a test on both signs.
  case infinity.infinity s t => cases s <;> cases t <;> rfl
  case zero.zero s t => cases s <;> cases t <;> rfl
  case finite.finite s m e hm t n f hn =>
    rw [unpacked_add_finite, unpacked_add_finite, Int.min_comm, Int.add_comm]
  all_goals rfl

theorem sign_multiply_commutes (s t : Sign) : s * t = t * s := by
  cases s <;> cases t <;> rfl

theorem unpacked_multiply_commutes (spec : Format) (x y : UnpackedFloat) :
    UnpackedFloat.mul spec x y = UnpackedFloat.mul spec y x := by
  cases x <;> cases y
  case finite.finite s m e hm t n f hn =>
    rw [unpacked_multiply_finite, unpacked_multiply_finite, sign_multiply_commutes, Nat.mul_comm,
      Int.add_comm]
  -- What is left is an infinity, a zero or no number, with the product of the signs.
  all_goals
    first
      | rfl
      | exact congrArg UnpackedFloat.infinity (sign_multiply_commutes _ _)
      | exact congrArg UnpackedFloat.zero (sign_multiply_commutes _ _)

theorem toModel_add (x y : Float) : (x + y).toModel
    = Float.Model.pack (UnpackedFloat.add Format.binary64 x.toModel.unpack y.toModel.unpack) :=
  rfl

theorem toModel_multiply (x y : Float) : (x * y).toModel
    = Float.Model.pack (UnpackedFloat.mul Format.binary64 x.toModel.unpack y.toModel.unpack) :=
  rfl

theorem add_commutes (x y : Float) : x + y = y + x := by
  refine eq_of_unpack_eq ?_
  rw [toModel_add, unpacked_add_commutes, toModel_add]

theorem multiply_commutes (x y : Float) : x * y = y * x := by
  refine eq_of_unpack_eq ?_
  rw [toModel_multiply, unpacked_multiply_commutes, toModel_multiply]

/-! ## Zeros in a sum -/

section Zeros

variable {x y : Float}

/-- A zero in front of a double that is no zero changes nothing. -/
theorem add_eq_of_isZero (hx : Coefficient.isZero x = true) (hy : Coefficient.isZero y = false) :
    x + y = y := by
  obtain ⟨sign, hx⟩ := (isZero_iff x).1 hx
  have hsum : UnpackedFloat.add Format.binary64 (.zero sign) y.toModel.unpack
      = y.toModel.unpack := by
    cases hparts : y.toModel.unpack with
    | notANumber => rfl
    | infinity s => rfl
    | zero s =>
        have hzero := (isZero_iff y).2 ⟨s, hparts⟩
        rw [hy] at hzero
        cases hzero
    | finite s m e hpos => rfl
  refine eq_of_unpack_eq ?_
  rw [toModel_add, hx, hsum, pack_unpack]

/-- A zero behind zero is the positive one, whatever its sign is. -/
theorem zero_add_of_isZero (hx : Coefficient.isZero x = true) : 0 + x = 0 := by
  obtain ⟨sign, hx⟩ := (isZero_iff x).1 hx
  have hzero : (0 : Float).toModel.unpack = .zero .positive := rfl
  refine eq_of_unpack_eq ?_
  rw [toModel_add, hx, hzero]
  cases sign with
  | negative => rfl
  | positive => rfl

theorem isZero_zero : Coefficient.isZero (0 : Float) = true := (isZero_iff 0).2 ⟨.positive, rfl⟩

/-- Two doubles behind a zero have the same sum in both orders. -/
theorem zero_add_add_commutes (x y : Float) : 0 + x + y = 0 + y + x := by
  cases hx : Coefficient.isZero x with
  | false =>
      rw [add_eq_of_isZero isZero_zero hx]
      cases hy : Coefficient.isZero y with
      | false => rw [add_eq_of_isZero isZero_zero hy, add_commutes]
      | true => rw [zero_add_of_isZero hy, add_eq_of_isZero isZero_zero hx, add_commutes,
          add_eq_of_isZero hy hx]
  | true =>
      rw [zero_add_of_isZero hx]
      cases hy : Coefficient.isZero y with
      | false => rw [add_eq_of_isZero isZero_zero hy, add_commutes, add_eq_of_isZero hx hy]
      | true => rw [zero_add_of_isZero hy, zero_add_of_isZero hx]

end Zeros

/-! ## Numbers -/

/-- The number that a double is, if it is one. -/
def toRat? (x : Float) : Option ℚ :=
  match x.toModel.unpack with
  | .zero _ => some 0
  | .finite .positive m e _ => some (Scaled.toRat ⟨m, e⟩)
  | .finite .negative m e _ => some (-Scaled.toRat ⟨m, e⟩)
  | _ => none

/-- A canonical number is determined by what it stands for, since its bits are. -/
theorem eq_of_toRat_eq {m n : Nat} {e f : Int} (hm : 0 < m) (hn : 0 < n)
    (hx : Scaled.IsCanonical ⟨m, e⟩) (hy : Scaled.IsCanonical ⟨n, f⟩)
    (h : Scaled.toRat ⟨m, e⟩ = Scaled.toRat ⟨n, f⟩) : m = n ∧ e = f := by
  have hbits : Scaled.bits ⟨m, e⟩ = Scaled.bits ⟨n, f⟩ := by
    rw [← nearestBits_of_eq_toRat (Scaled.den_pos _) hx (Scaled.num_div_den ⟨m, e⟩),
      nearestBits_of_eq_toRat (Scaled.den_pos _) hy ((Scaled.num_div_den ⟨m, e⟩).trans h)]
  have hparts := unpack_ofMagnitude_bits hm hx
  rw [hbits, unpack_ofMagnitude_bits hn hy] at hparts
  cases hparts
  exact ⟨rfl, rfl⟩

/-- The sign of a number that is not zero. -/
def signOfRat (v : ℚ) : Sign := if 0 < v then .positive else .negative

section Numbers

variable {x y : Float} {v : ℚ}

/-- A double that is a number is a zero, or its parts are those of the number. -/
theorem unpack_of_toRat? (h : toRat? x = some v) :
    (v = 0 ∧ ∃ sign, x.toModel.unpack = .zero sign)
      ∨ (v ≠ 0 ∧ ∃ m e hpos, Scaled.IsCanonical ⟨m, e⟩ ∧ Scaled.toRat ⟨m, e⟩ = |v|
        ∧ x.toModel.unpack = .finite (signOfRat v) m e hpos) := by
  unfold toRat? at h
  cases hparts : x.toModel.unpack with
  | notANumber =>
      rw [hparts] at h
      cases h
  | infinity sign =>
      rw [hparts] at h
      cases h
  | zero sign =>
      rw [hparts] at h
      cases h
      exact .inl ⟨rfl, sign, rfl⟩
  | finite sign m e hpos =>
      have hcanonical := isCanonical_of_unpack hparts
      have hlt := hcanonical.toRat_pos
      rw [hparts] at h
      refine .inr ?_
      cases sign with
      | positive =>
          cases h
          refine ⟨hlt.ne', m, e, hpos, hcanonical, (abs_of_pos hlt).symm, ?_⟩
          rw [signOfRat, if_pos hlt]
      | negative =>
          cases h
          have hneg : ¬0 < -Scaled.toRat ⟨m, e⟩ := (neg_lt_zero.2 hlt).not_gt
          refine ⟨neg_ne_zero.2 hlt.ne', m, e, hpos, hcanonical, ?_, ?_⟩
          · rw [abs_neg, abs_of_pos hlt]
          · rw [signOfRat, if_neg hneg]

theorem isZero_iff_of_toRat? (h : toRat? x = some v) : Coefficient.isZero x = true ↔ v = 0 := by
  rw [isZero_iff]
  rcases unpack_of_toRat? h with ⟨hv, hzero⟩ | ⟨hv, m, e, hpos, -, -, hparts⟩
  · exact iff_of_true hzero hv
  · refine iff_of_false ?_ hv
    rintro ⟨sign, hzero⟩
    cases hzero.symm.trans hparts

theorem toRat?_of_isZero (h : Coefficient.isZero x = true) : toRat? x = some 0 := by
  obtain ⟨sign, hparts⟩ := (isZero_iff x).1 h
  unfold toRat?
  rw [hparts]

theorem isZero_eq_false_of_toRat? (h : toRat? x = some v) (hv : v ≠ 0) :
    Coefficient.isZero x = false :=
  Bool.eq_false_iff.2 fun hzero => hv ((isZero_iff_of_toRat? h).1 hzero)

/-- Doubles that are the same number, which is not zero, are equal. -/
theorem eq_of_toRat?_eq (hx : toRat? x = some v) (hy : toRat? y = some v) (hv : v ≠ 0) :
    x = y := by
  obtain ⟨-, m, e, hm, hcx, hmx, hpx⟩ := (unpack_of_toRat? hx).resolve_left fun h => hv h.1
  obtain ⟨-, n, f, hn, hcy, hmy, hpy⟩ := (unpack_of_toRat? hy).resolve_left fun h => hv h.1
  obtain ⟨rfl, rfl⟩ := eq_of_toRat_eq hm hn hcx hcy (hmx.trans hmy.symm)
  exact eq_of_unpack_eq (hpx.trans hpy.symm)

end Numbers

end Binary64

end PolyCalc
