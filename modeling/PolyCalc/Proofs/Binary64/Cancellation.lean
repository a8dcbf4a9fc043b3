import PolyCalc.Proofs.Binary64.Range

/-!
# Sums That Cancel

A sum of two doubles is rounded, and still it is zero only if the two cancel exactly. Every
double that is a number is a multiple of the least positive one, and so is the exact sum of
two of them. A multiple that is not zero reaches the least double, and what reaches a double
is not rounded to zero. This is what the doubles below the normal ones are there for.

So two finite doubles have no difference exactly if they are equal. Of the two zeros this is
true as well, and infinities have to be left out: the difference of an infinity and itself is
not a number.

## Theorems

* `nearestBits_pos`: What reaches the least double is not rounded to zero.
* `exists_eq_mul_zpow`: Doubles are multiples of the least one.
* `isZero_add_iff`: A sum is zero if the exact sum is.
* `beq_iff`: When two doubles are equal.
* `isZero_subtract_iff`: Finite doubles without a difference are equal.
-/

namespace PolyCalc

namespace Binary64

open Float.Model (UnpackedFloat Format)
open Float.Model.UnpackedFloat
open Coefficient (unlessZero unlessZero_eq_iff)

/-! ## Rounding above zero -/

/-- What reaches the least double is not rounded to zero. -/
theorem nearestBits_pos {num den : Nat} (hnum : 0 < num) (hden : 0 < den)
    (h : (2 : ℚ) ^ (-1074 : ℤ) ≤ num / den) : 0 < nearestBits num den := by
  have hq : (0 : ℚ) < num / den := div_pos (Nat.cast_pos.2 hnum) (Nat.cast_pos.2 hden)
  obtain ⟨t, ht⟩ : ∃ t, t = max (Int.log 2 (num / den : ℚ) - 52) (-1074) := ⟨_, rfl⟩
  have hlow : (2 : ℚ) ^ Int.log 2 (num / den : ℚ) ≤ num / den :=
    (Int.zpow_le_iff_le_log (b := 2) (by decide) hq).2 le_rfl
  -- The last place is the least double itself, or it lies below the first one.
  have hplace : (2 : ℚ) ^ t ≤ num / den := by
    rcases le_total (Int.log 2 (num / den : ℚ) - 52) (-1074) with hle | hle
    · rw [ht, max_eq_right hle]
      exact h
    · rw [ht, max_eq_left hle]
      exact (zpow_le_zpow_right₀ one_le_two (by omega)).trans hlow
  rw [nearestBits_eq_significand hnum hden ht, lt_min_iff]
  exact ⟨Nat.add_pos_right _ (significand_pos hden hplace), by decide⟩

/-- The word of a zero has no bits but the sign. -/
theorem toNat_mod_of_unpack_zero {b : BitVec Format.binary64.numBits} {s : Sign}
    (h : UnpackedFloat.unpack Format.binary64 b = .zero s) : b.toNat % 2 ^ 63 = 0 := by
  have hexponent := toNat_unpackExponent b
  have hmantissa := toNat_unpackMantissa b
  by_cases hones : unpackExponent b = -1#_
  · by_cases hnil : unpackMantissa b = 0#_
    · rw [unpack_infinity hones hnil] at h
      cases h
    · rw [unpack_notANumber hones hnil] at h
      cases h
  · by_cases hzero : unpackExponent b = 0#_
    · have he : (unpackExponent b).toNat = 0 := congrArg BitVec.toNat hzero
      by_cases hnil : unpackMantissa b = 0#_
      · have hm : (unpackMantissa b).toNat = 0 := congrArg BitVec.toNat hnil
        omega
      · have hm : (unpackMantissa b).toNat ≠ 0 := fun h => hnil (BitVec.eq_of_toNat_eq h)
        rw [unpack_subnormal hones hzero (Nat.pos_of_ne_zero hm)] at h
        cases h
    · rw [unpack_normal hones hzero] at h
      cases h

theorem isZero_eq_false_of_round {z : Float} {sign : Sign} {m : Nat} {e : Int} (hm : 0 < m)
    (hz : z.toModel = Float.Model.pack (UnpackedFloat.round Format.binary64 sign m e))
    (h : (2 : ℚ) ^ (-1074 : ℤ) ≤ Scaled.toRat ⟨m, e⟩) : Coefficient.isZero z = false := by
  have hunpack : z.toModel.unpack = UnpackedFloat.unpack Format.binary64
      (UnpackedFloat.pack Format.binary64 (UnpackedFloat.round Format.binary64 sign m e)) := by
    rw [hz]
    rfl
  have hnum : 0 < Scaled.num ⟨m, e⟩ := by
    rw [Scaled.num, Nat.shiftLeft_eq]
    exact Nat.mul_pos hm (Nat.two_pow_pos _)
  have hbits := nearestBits_pos hnum (Scaled.den_pos _) ((Scaled.num_div_den _).symm ▸ h)
  have hle := nearestBits_le (Scaled.num ⟨m, e⟩) (Scaled.den ⟨m, e⟩)
  have hinfinity : infinityBits = 2047 * 2 ^ 52 := rfl
  refine Bool.eq_false_iff.2 fun hzero => ?_
  obtain ⟨s, hs⟩ := (isZero_iff z).1 hzero
  have hmod := toNat_mod_of_unpack_zero (hunpack.symm.trans hs)
  rw [toNat_pack_round sign hm] at hmod
  omega

/-! ## Exact sums -/

section Sums

variable {x y : Float} {a b : ℚ}

/-- Every double that is a number is a multiple of the least positive one. -/
theorem exists_eq_mul_zpow (hx : toRat? x = some a) : ∃ k : ℤ, a = k * 2 ^ (-1074 : ℤ) := by
  rcases unpack_of_toRat? hx with ⟨rfl, -⟩ | ⟨-, m, e, -, hcanonical, hnumber, -⟩
  · exact ⟨0, by rw [Int.cast_zero, zero_mul]⟩
  · obtain ⟨-, -, hleast, -, -⟩ := isCanonical_mk.1 hcanonical
    have he : e = ((e + 1074).toNat : ℤ) + (-1074) := by omega
    refine ⟨(signOfRat a).apply m * 2 ^ (e + 1074).toNat, ?_⟩
    rw [Int.cast_mul, mul_assoc, Int.cast_pow, Int.cast_ofNat, ← zpow_natCast,
      ← zpow_add₀ two_ne_zero, ← he, apply_signOfRat hnumber]

/-- A sum that is not zero reaches the least double. -/
theorem zpow_le_abs_add (hx : toRat? x = some a) (hy : toRat? y = some b) (hne : a + b ≠ 0) :
    (2 : ℚ) ^ (-1074 : ℤ) ≤ |a + b| := by
  obtain ⟨k, rfl⟩ := exists_eq_mul_zpow hx
  obtain ⟨l, rfl⟩ := exists_eq_mul_zpow hy
  have hpos : (0 : ℚ) < 2 ^ (-1074 : ℤ) := zpow_pos two_pos _
  rw [← add_mul, ← Int.cast_add] at hne ⊢
  have hkl : k + l ≠ 0 := by
    intro hzero
    rw [hzero, Int.cast_zero, zero_mul] at hne
    exact hne rfl
  have hone : (1 : ℚ) ≤ |((k + l : ℤ) : ℚ)| := by
    rw [← Int.cast_abs]
    exact_mod_cast Int.one_le_abs hkl
  rw [abs_mul, abs_of_pos hpos]
  exact le_mul_of_one_le_left hpos.le hone

/-- A sum is zero only if the exact sum is. -/
theorem isZero_add_iff (hx : toRat? x = some a) (hy : toRat? y = some b) :
    Coefficient.isZero (x + y) = true ↔ a + b = 0 := by
  by_cases ha : a = 0
  · have hxzero := (isZero_iff_of_toRat? hx).2 ha
    rw [ha, zero_add, ← isZero_iff_of_toRat? hy]
    cases hyzero : Coefficient.isZero y with
    | false => rw [add_eq_of_isZero hxzero hyzero, hyzero]
    | true => exact iff_of_true (isZero_add hxzero hyzero) rfl
  by_cases hb : b = 0
  · have hyzero := (isZero_iff_of_toRat? hy).2 hb
    rw [hb, add_zero, add_commutes, add_eq_of_isZero hyzero (isZero_eq_false_of_toRat? hx ha)]
    exact isZero_iff_of_toRat? hx
  obtain ⟨i, e, hnumber, hmodel⟩ := exists_toModel_add hx hy ha hb
  by_cases hi : i = 0
  · subst hi
    rw [← hnumber, Int.cast_zero, zero_mul]
    exact iff_of_true (isZero_pack_normalize_zero hmodel) rfl
  · have hpow : (0 : ℚ) < 2 ^ e := zpow_pos two_pos e
    have hne : a + b ≠ 0 := hnumber ▸ mul_ne_zero (Int.cast_ne_zero.2 hi) hpow.ne'
    have habs : Scaled.toRat ⟨i.natAbs, e⟩ = |a + b| := by
      rw [← hnumber, abs_mul, abs_of_pos hpow, Scaled.toRat, Nat.cast_natAbs, Int.cast_abs]
    rw [normalize_eq_round hi] at hmodel
    have hnonzero := isZero_eq_false_of_round (Int.natAbs_pos.2 hi) hmodel
      (habs ▸ zpow_le_abs_add hx hy hne)
    rw [hnonzero]
    exact iff_of_false Bool.false_ne_true hne

theorem toRat?_neg (hx : toRat? x = some a) : toRat? (-x) = some (-a) := by
  unfold toRat? at hx ⊢
  rw [unpack_negative]
  cases hparts : x.toModel.unpack with
  | notANumber | infinity s =>
      rw [hparts] at hx
      cases hx
  | zero s =>
      rw [hparts] at hx
      cases hx
      rfl
  | finite s m e hpos =>
      rw [hparts] at hx
      cases s with
      | positive =>
          cases hx
          rfl
      | negative =>
          cases hx
          exact congrArg some (neg_neg _).symm

end Sums

/-! ## Equal doubles -/

section Equality

variable {x y : Float}

theorem isNaN_eq_false_of_isFinite (h : x.isFinite = true) : x.isNaN = false := by
  have hnan : x.isNaN = x.toModel.unpack.isNaN := rfl
  have hfinite : x.toModel.unpack.isFinite = true := h
  rw [hnan]
  cases hparts : x.toModel.unpack with
  | notANumber =>
      rw [hparts] at hfinite
      cases hfinite
  | infinity s | zero s | finite s m e hpos => rfl

theorem isNaN_eq_false_of_beq (h : (x == y) = true) : x.isNaN = false := by
  have hnan : x.isNaN = x.toModel.unpack.isNaN := rfl
  have htest : (x.toModel.unpack.compare y.toModel.unpack == some .eq) = true := h
  rw [hnan]
  cases hparts : x.toModel.unpack with
  | notANumber =>
      rw [hparts] at htest
      cases htest
  | infinity s | zero s | finite s m e hpos => rfl

/-- Doubles are equal if the same remains of them, and if they are not the absence of a
    number. -/
theorem beq_iff : (x == y) = true ↔ unlessZero x = unlessZero y ∧ x.isNaN = false := by
  rw [← isSameNumber_iff]
  constructor
  · intro h
    exact ⟨.inl h, isNaN_eq_false_of_beq h⟩
  · rintro ⟨h | ⟨hx, -⟩, hnan⟩
    · exact h
    · rw [hnan] at hx
      cases hx

theorem beq_commutes (x y : Float) : (x == y) = (y == x) := by
  have hturn {x y : Float} (h : (x == y) = true) : (y == x) = true := by
    obtain ⟨hsame, hnan⟩ := beq_iff.1 h
    exact beq_iff.2 ⟨hsame.symm, IsSameNumber.isNaN_eq (.inl h) ▸ hnan⟩
  exact Bool.eq_iff_iff.2 ⟨hturn, hturn⟩

theorem beq_iff_of_toRat? {a b : ℚ} (hx : toRat? x = some a) (hy : toRat? y = some b) :
    (x == y) = true ↔ a = b := by
  have hnan := isNaN_eq_false_of_isFinite (isFinite_iff_toRat?.2 ⟨a, hx⟩)
  rw [beq_iff, and_iff_left hnan, unlessZero_eq_iff, isZero_iff_of_toRat? hx,
    isZero_iff_of_toRat? hy]
  constructor
  · rintro (rfl | ⟨rfl, rfl⟩)
    · exact Option.some.inj (hx.symm.trans hy)
    · rfl
  · rintro rfl
    by_cases ha : a = 0
    · exact .inr ⟨ha, ha⟩
    · exact .inl (eq_of_toRat?_eq hx hy ha)

/-- Finite doubles are equal exactly if they have no difference. -/
theorem isZero_subtract_iff (hx : x.isFinite = true) (hy : y.isFinite = true) :
    Coefficient.isZero (x - y) = true ↔ (x == y) = true := by
  obtain ⟨a, ha⟩ := isFinite_iff_toRat?.1 hx
  obtain ⟨b, hb⟩ := isFinite_iff_toRat?.1 hy
  rw [subtract_eq_add_neg, isZero_add_iff ha (toRat?_neg hb), beq_iff_of_toRat? ha hb,
    ← sub_eq_add_neg, sub_eq_zero]

end Equality

/-- The difference of the two least positive doubles is the lesser one of them. -/
example : ofMagnitude 2 - ofMagnitude 1 = ofMagnitude 1 := by decide +kernel

end Binary64

end PolyCalc
