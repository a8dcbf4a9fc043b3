import PolyCalc.Proofs.Binary64.Laws

/-!
# Sums and Products That Are Doubles

An operation on doubles rounds, and if the exact result is a double, rounding has nothing
to do: the result of the operation is this double. A significand is aligned or multiplied
before it is rounded, so it can have zeros at the end which a double has not. They are
shifted out again, and no bit is lost on the way.

Which numbers are doubles is seen best from the small multiples of a power of two: those
with no more than 53 bits are doubles, as long as the power itself is in range. Products
and sums of such numbers are such numbers again while there is room for the bits, and
there no operation rounds at all.

## Main definitions

* `IsDouble`: A number that some double is.
* `IsMultiple`: A double that is a multiple of a power of two, up to a bound.

## Theorems

* `round_exact`: Rounding does not change a number that is a double.
* `toRat?_add`, `toRat?_multiply`: A sum or a product that is a double is found.
* `isDouble_mul_two_zpow`: Short multiples of a power of two are doubles.
* `IsMultiple.multiply`: A product of short multiples of two powers.
-/

namespace PolyCalc

namespace Binary64

open Float.Model (UnpackedFloat Format totalExponent)
open Float.Model.UnpackedFloat

/-! ## Rounding -/

/-- The same number with a smaller exponent has a greater significand. -/
theorem eq_mul_two_pow_of_toRat_eq {m n : Nat} {e f : Int}
    (h : Scaled.toRat ⟨m, e⟩ = Scaled.toRat ⟨n, f⟩) (hle : e ≤ f) :
    m = n * 2 ^ (f - e).toNat := by
  have hf : f = ((f - e).toNat : ℤ) + e := by omega
  rw [Scaled.toRat, Scaled.toRat, hf, zpow_add₀ two_ne_zero, ← mul_assoc, zpow_natCast] at h
  have hcast := mul_right_cancel₀ (zpow_ne_zero e two_ne_zero) h
  exact_mod_cast hcast

theorem log2_mul_two_pow {n : Nat} (hn : 0 < n) (k : Nat) : (n * 2 ^ k).log2 = n.log2 + k := by
  induction k with
  | zero => simp
  | succ k ih =>
      have hpow : n * 2 ^ (k + 1) = 2 * (n * 2 ^ k) := by ring
      rw [hpow, Nat.log2_two_mul (Nat.mul_pos hn (Nat.two_pow_pos k)).ne', ih, Nat.add_assoc]

theorem totalExponent_mul_two_pow {n : Nat} (hn : 0 < n) (k : Nat) (e : Int) :
    totalExponent (n * 2 ^ k) e = totalExponent n (e + k) := by
  unfold totalExponent
  rw [log2_mul_two_pow hn]
  omega

theorem targetExponent_of_isCanonical {n : Nat} {f : Int} (h : Scaled.IsCanonical ⟨n, f⟩) :
    Format.binary64.targetExponent (totalExponent n f) = f := by
  obtain ⟨hpos, hlt, hleast, -, hnormal⟩ := isCanonical_mk.1 h
  have htarget : Format.binary64.targetExponent (totalExponent n f)
      = max ((n.log2 : Int) + 1 + f - 53) (-1074) := rfl
  have hhigh := (Nat.log2_lt hpos.ne').2 hlt
  rw [htarget]
  rcases hnormal with hnormal | hnormal
  · omega
  · have hlow := (Nat.le_log2 hpos.ne').2 hnormal
    omega

/-- Zeros at the end are shifted out without a trace. -/
theorem repeat_shiftRightOne (n k : Nat) :
    Nat.repeat ExtendedMantissa.shiftRightOne k ⟨n * 2 ^ k, false, false⟩ = ⟨n, false, false⟩ := by
  induction k generalizing n with
  | zero => simp [Nat.repeat]
  | succ k ih =>
      have hpow : n * 2 ^ (k + 1) = 2 * n * 2 ^ k := by ring
      rw [Nat.repeat, hpow, ih]
      simp [ExtendedMantissa.shiftRightOne]

section Canonical

variable {n k : Nat} {e f : Int} (h : Scaled.IsCanonical ⟨n, f⟩) (he : e + k = f)
include h he

theorem shiftToTargetExponent_exact :
    shiftToTargetExponent Format.binary64 (n * 2 ^ k) e .exact = (⟨n, false, false⟩, f) := by
  have htarget : Format.binary64.targetExponent (totalExponent (n * 2 ^ k) e) = f := by
    rw [totalExponent_mul_two_pow h.pos, he, targetExponent_of_isCanonical h]
  have hk : (f - e).toNat = k := by omega
  have hshift : shiftToTargetExponent Format.binary64 (n * 2 ^ k) e .exact
      = shiftToExponent (n * 2 ^ k) e .exact f :=
    congrArg (shiftToExponent (n * 2 ^ k) e .exact) htarget
  have hrepeat : shiftToExponent (n * 2 ^ k) e .exact f
      = (Nat.repeat ExtendedMantissa.shiftRightOne (f - e).toNat ⟨n * 2 ^ k, false, false⟩,
        e + (f - e).toNat) := rfl
  rw [hshift, hrepeat, hk, repeat_shiftRightOne, he]

/-- Rounding a number with zeros behind it to its own exponent leaves it as it is. -/
theorem roundWithAccuracy_exact (sign : Sign) (hn : 0 < n) :
    roundWithAccuracy Format.binary64 sign (n * 2 ^ k) e .exact = .finite sign n f hn := by
  have hagain : shiftToTargetExponent Format.binary64 n f .exact = (⟨n, false, false⟩, f) := by
    have hzero := shiftToTargetExponent_exact h (k := 0) (Int.add_zero f)
    rwa [Nat.pow_zero, Nat.mul_one] at hzero
  have hrounded : ExtendedMantissa.roundedMantissa ⟨n, false, false⟩ = n := rfl
  unfold roundWithAccuracy
  rw [shiftToTargetExponent_exact h he]
  dsimp only
  rw [hrounded, hagain]
  exact dif_neg hn.ne'

end Canonical

/-- A number that is a double is not changed by rounding. -/
theorem round_exact {m n : Nat} {e f : Int} (sign : Sign) (hn : 0 < n)
    (h : Scaled.IsCanonical ⟨n, f⟩) (hv : Scaled.toRat ⟨m, e⟩ = Scaled.toRat ⟨n, f⟩) :
    UnpackedFloat.round Format.binary64 sign m e = .finite sign n f hn := by
  -- One of the two exponents is brought to the other, and the other shift is by nothing.
  have haligned : m * 2 ^ (e - f).toNat = n * 2 ^ (f - e).toNat
      ∧ totalExponent m e = totalExponent n f := by
    rcases Int.le_total e f with hle | hle
    · have hm := eq_mul_two_pow_of_toRat_eq hv hle
      have hzero : (e - f).toNat = 0 := by omega
      have he : e + (f - e).toNat = f := by omega
      refine ⟨by rw [hzero, Nat.pow_zero, Nat.mul_one, hm], ?_⟩
      rw [hm, totalExponent_mul_two_pow hn, he]
    · have hm := eq_mul_two_pow_of_toRat_eq hv.symm hle
      have hzero : (f - e).toNat = 0 := by omega
      have he : f + (e - f).toNat = e := by omega
      have hpos : 0 < m := Nat.pos_of_mul_pos_right (hm ▸ hn)
      refine ⟨by rw [hzero, Nat.pow_zero, Nat.mul_one, hm], ?_⟩
      rw [hm, totalExponent_mul_two_pow hpos, he]
  have hround : UnpackedFloat.round Format.binary64 sign m e
      = roundWithAccuracy Format.binary64 sign
        (m <<< (e - Format.binary64.targetExponent (totalExponent m e)).toNat)
        (e - (e - Format.binary64.targetExponent (totalExponent m e)).toNat) .exact := rfl
  rw [hround, haligned.2, targetExponent_of_isCanonical h, Nat.shiftLeft_eq, haligned.1]
  exact roundWithAccuracy_exact h (by omega) sign hn

/-! ## Numbers that are doubles -/

/-- A number that some double is. -/
def IsDouble (v : ℚ) : Prop := ∃ x, toRat? x = some v

theorem signOfRat_mul {a b : ℚ} (ha : a ≠ 0) (hb : b ≠ 0) :
    signOfRat (a * b) = signOfRat a * signOfRat b := by
  unfold signOfRat
  rcases lt_or_gt_of_ne ha with ha | ha
  · rcases lt_or_gt_of_ne hb with hb | hb
    · rw [if_pos (mul_pos_of_neg_of_neg ha hb), if_neg ha.not_gt, if_neg hb.not_gt]
      rfl
    · rw [if_neg (mul_neg_of_neg_of_pos ha hb).not_gt, if_neg ha.not_gt, if_pos hb]
      rfl
  · rcases lt_or_gt_of_ne hb with hb | hb
    · rw [if_neg (mul_neg_of_pos_of_neg ha hb).not_gt, if_pos ha, if_neg hb.not_gt]
      rfl
    · rw [if_pos (mul_pos ha hb), if_pos ha, if_pos hb]
      rfl

/-- The sign and the magnitude of a number make up the number. -/
theorem apply_signOfRat {v : ℚ} {m : Nat} {e : Int} (h : Scaled.toRat ⟨m, e⟩ = |v|) :
    (((signOfRat v).apply m : ℤ) : ℚ) * 2 ^ e = v := by
  rw [Scaled.toRat] at h
  unfold signOfRat
  by_cases hv : 0 < v
  · rw [if_pos hv, Sign.apply, Int.cast_natCast, h, abs_of_pos hv]
  · rw [if_neg hv, Sign.apply, Int.cast_neg, Int.cast_natCast, neg_mul, h,
      abs_of_nonpos (not_lt.1 hv), neg_neg]

theorem apply_decreaseExponent (sign : Sign) (m : Nat) {e t : Int} (hle : t ≤ e) :
    ((sign.apply (decreaseExponent m e t).1 : ℤ) : ℚ) * 2 ^ t = (sign.apply m : ℤ) * 2 ^ e := by
  have hshift : (decreaseExponent m e t).1 = m * 2 ^ (e - t).toNat := Nat.shiftLeft_eq _ _
  have he : e = ((e - t).toNat : ℤ) + t := by omega
  have hpow : (2 : ℚ) ^ e = 2 ^ (e - t).toNat * 2 ^ t := by
    rw [← zpow_natCast, ← zpow_add₀ two_ne_zero, ← he]
  rw [hshift, hpow]
  cases sign with
  | positive =>
      simp only [Sign.apply]
      push_cast
      ring
  | negative =>
      simp only [Sign.apply]
      push_cast
      ring

theorem normalize_eq_round {i : Int} (hi : i ≠ 0) (e : Int) (zeroSign : Sign) :
    UnpackedFloat.normalize Format.binary64 i e zeroSign
      = UnpackedFloat.round Format.binary64 (if 0 < i then .positive else .negative)
        i.natAbs e := by
  unfold UnpackedFloat.normalize
  rcases Int.lt_or_gt_of_ne hi with hlt | hgt
  · have hcompare : compare i 0 = .lt := Int.compare_eq_lt.2 hlt
    have habs : (-i).toNat = i.natAbs := by omega
    rw [hcompare, if_neg (by omega), ← habs]
  · have hcompare : compare i 0 = .gt := Int.compare_eq_gt.2 hgt
    have habs : i.toNat = i.natAbs := by omega
    rw [hcompare, if_pos hgt, ← habs]

/-- A number that a double is has the parts of the double. -/
theorem normalize_exact {y : Float} {i e : Int} (hi : i ≠ 0)
    (hy : toRat? y = some ((i : ℚ) * 2 ^ e)) (zeroSign : Sign) :
    UnpackedFloat.normalize Format.binary64 i e zeroSign = y.toModel.unpack := by
  have hpow : (0 : ℚ) < 2 ^ e := zpow_pos two_pos e
  have hv : (i : ℚ) * 2 ^ e ≠ 0 := mul_ne_zero (Int.cast_ne_zero.2 hi) hpow.ne'
  obtain ⟨-, n, f, hn, hcanonical, hnumber, hparts⟩ :=
    (unpack_of_toRat? hy).resolve_left fun h => hv h.1
  have hsign : signOfRat ((i : ℚ) * 2 ^ e) = if 0 < i then .positive else .negative :=
    if_congr ((mul_pos_iff_of_pos_right hpow).trans Int.cast_pos) rfl rfl
  have hsame : Scaled.toRat ⟨i.natAbs, e⟩ = Scaled.toRat ⟨n, f⟩ := by
    rw [hnumber, abs_mul, abs_of_pos hpow, Scaled.toRat, Nat.cast_natAbs, Int.cast_abs]
  rw [normalize_eq_round hi, round_exact _ hn hcanonical hsame, hparts, hsign]

section Operations

variable {x y : Float} {a b : ℚ}

theorem isZero_add (hx : Coefficient.isZero x = true) (hy : Coefficient.isZero y = true) :
    Coefficient.isZero (x + y) = true := by
  obtain ⟨s, hx⟩ := (isZero_iff x).1 hx
  obtain ⟨t, hy⟩ := (isZero_iff y).1 hy
  refine (isZero_iff _).2 ?_
  rw [toModel_add, hx, hy]
  cases s <;> cases t <;> exact ⟨_, rfl⟩

/-- The significands are aligned to the smaller exponent and added as integers. So the exact
    sum is what is rounded. -/
theorem exists_toModel_add (hx : toRat? x = some a) (hy : toRat? y = some b) (ha : a ≠ 0)
    (hb : b ≠ 0) :
    ∃ i e : Int, (i : ℚ) * 2 ^ e = a + b
      ∧ (x + y).toModel
        = Float.Model.pack (UnpackedFloat.normalize Format.binary64 i e .positive) := by
  obtain ⟨-, m, e, hm, -, hmx, hpx⟩ := (unpack_of_toRat? hx).resolve_left fun h => ha h.1
  obtain ⟨-, n, f, hn, -, hmy, hpy⟩ := (unpack_of_toRat? hy).resolve_left fun h => hb h.1
  refine ⟨(signOfRat a).apply (decreaseExponent m e (min e f)).1
    + (signOfRat b).apply (decreaseExponent n f (min e f)).1, min e f, ?_, ?_⟩
  · rw [Int.cast_add, add_mul, apply_decreaseExponent _ _ (Int.min_le_left e f),
      apply_decreaseExponent _ _ (Int.min_le_right e f), apply_signOfRat hmx, apply_signOfRat hmy]
  · rw [toModel_add, hpx, hpy, unpacked_add_finite]

theorem isZero_pack_normalize_zero {z : Float} {e : Int}
    (hz : z.toModel = Float.Model.pack (UnpackedFloat.normalize Format.binary64 0 e .positive)) :
    Coefficient.isZero z = true := by
  have hnil : UnpackedFloat.normalize Format.binary64 0 e .positive = .zero .positive := rfl
  refine (isZero_iff _).2 ⟨.positive, ?_⟩
  rw [hz, hnil, unpack_pack_zero]

theorem toRat?_add_of_ne_zero (hx : toRat? x = some a) (hy : toRat? y = some b) (ha : a ≠ 0)
    (hb : b ≠ 0) (hsum : IsDouble (a + b)) : toRat? (x + y) = some (a + b) := by
  obtain ⟨i, e, hnumber, hmodel⟩ := exists_toModel_add hx hy ha hb
  by_cases hzero : i = 0
  · subst hzero
    rw [toRat?_of_isZero (isZero_pack_normalize_zero hmodel), ← hnumber, Int.cast_zero, zero_mul]
  · obtain ⟨z, hz⟩ := hsum
    have hsame : x + y = z := by
      refine eq_of_unpack_eq ?_
      rw [hmodel, normalize_exact hzero (hnumber.symm ▸ hz), pack_unpack]
    rw [hsame, hz]

/-- A sum that is a double is found. -/
theorem toRat?_add (hx : toRat? x = some a) (hy : toRat? y = some b) (hsum : IsDouble (a + b)) :
    toRat? (x + y) = some (a + b) := by
  by_cases ha : a = 0
  · have hxzero := (isZero_iff_of_toRat? hx).2 ha
    by_cases hb : b = 0
    · have hyzero := (isZero_iff_of_toRat? hy).2 hb
      rw [toRat?_of_isZero (isZero_add hxzero hyzero), ha, hb, add_zero]
    · rw [add_eq_of_isZero hxzero (isZero_eq_false_of_toRat? hy hb), hy, ha, zero_add]
  · by_cases hb : b = 0
    · have hyzero := (isZero_iff_of_toRat? hy).2 hb
      rw [add_commutes, add_eq_of_isZero hyzero (isZero_eq_false_of_toRat? hx ha), hx, hb, add_zero]
    · exact toRat?_add_of_ne_zero hx hy ha hb hsum

theorem isZero_multiply (hx : Coefficient.isZero x = true) (hy : toRat? y = some b) :
    Coefficient.isZero (x * y) = true := by
  obtain ⟨s, hx⟩ := (isZero_iff x).1 hx
  -- Zero times a number is a zero, of the sign that a product has.
  have hproduct : ∃ t, UnpackedFloat.mul Format.binary64 (.zero s) y.toModel.unpack = .zero t := by
    rcases unpack_of_toRat? hy with ⟨-, t, hy⟩ | ⟨-, n, f, hn, -, -, hy⟩
    · exact ⟨s * t, by rw [hy]; rfl⟩
    · exact ⟨s * signOfRat b, by rw [hy]; rfl⟩
  obtain ⟨t, ht⟩ := hproduct
  refine (isZero_iff _).2 ⟨t, ?_⟩
  rw [toModel_multiply, hx, ht, unpack_pack_zero]

/-- The exponent of a canonical product is not below the sum of the exponents: it would
    have more bits than there is place for. -/
theorem add_exponents_le {m n l : Nat} {e f g : Int} (hx : Scaled.IsCanonical ⟨m, e⟩)
    (hy : Scaled.IsCanonical ⟨n, f⟩) (hz : Scaled.IsCanonical ⟨l, g⟩)
    (h : Scaled.toRat ⟨m * n, e + f⟩ = Scaled.toRat ⟨l, g⟩) : e + f ≤ g := by
  by_contra hlt
  have hl := eq_mul_two_pow_of_toRat_eq h.symm (Int.le_of_lt (not_le.1 hlt))
  obtain ⟨hm, -, -, -, hmnormal⟩ := isCanonical_mk.1 hx
  obtain ⟨hn, -, -, -, hnnormal⟩ := isCanonical_mk.1 hy
  obtain ⟨-, hlbound, hleast, -, -⟩ := isCanonical_mk.1 hz
  have htwo : 2 ≤ 2 ^ (e + f - g).toNat := Nat.le_self_pow (by omega) 2
  have hdouble : m * n * 2 ≤ l := hl ▸ Nat.mul_le_mul_left (m * n) htwo
  have hmle : m ≤ m * n := Nat.le_mul_of_pos_right m hn
  have hnle : n ≤ m * n := Nat.le_mul_of_pos_left n hm
  omega

theorem toRat?_multiply_of_ne_zero (hx : toRat? x = some a) (hy : toRat? y = some b) (ha : a ≠ 0)
    (hb : b ≠ 0) (hproduct : IsDouble (a * b)) : toRat? (x * y) = some (a * b) := by
  obtain ⟨-, m, e, hm, hcx, hmx, hpx⟩ := (unpack_of_toRat? hx).resolve_left fun h => ha h.1
  obtain ⟨-, n, f, hn, hcy, hmy, hpy⟩ := (unpack_of_toRat? hy).resolve_left fun h => hb h.1
  obtain ⟨z, hz⟩ := hproduct
  obtain ⟨-, l, g, hl, hcz, hmz, hpz⟩ :=
    (unpack_of_toRat? hz).resolve_left fun h => mul_ne_zero ha hb h.1
  have hnumber : Scaled.toRat ⟨m * n, e + f⟩ = Scaled.toRat ⟨l, g⟩ := by
    rw [hmz, abs_mul, ← hmx, ← hmy, Scaled.toRat, Scaled.toRat, Scaled.toRat,
      zpow_add₀ two_ne_zero, Nat.cast_mul]
    ring
  have hle := add_exponents_le hcx hcy hcz hnumber
  have hsame : x * y = z := by
    refine eq_of_unpack_eq ?_
    rw [toModel_multiply, hpx, hpy, unpacked_multiply_finite,
      eq_mul_two_pow_of_toRat_eq hnumber hle, roundWithAccuracy_exact hcz (by omega) _ hl,
      ← signOfRat_mul ha hb, ← hpz, pack_unpack]
  rw [hsame, hz]

/-- A product that is a double is found. -/
theorem toRat?_multiply (hx : toRat? x = some a) (hy : toRat? y = some b)
    (hproduct : IsDouble (a * b)) : toRat? (x * y) = some (a * b) := by
  by_cases ha : a = 0
  · rw [toRat?_of_isZero (isZero_multiply ((isZero_iff_of_toRat? hx).2 ha) hy), ha, zero_mul]
  · by_cases hb : b = 0
    · rw [multiply_commutes, toRat?_of_isZero (isZero_multiply ((isZero_iff_of_toRat? hy).2 hb) hx),
        hb, mul_zero]
    · exact toRat?_multiply_of_ne_zero hx hy ha hb hproduct

end Operations

/-! ## Small multiples of a power of two -/

/-- Zeros are put behind a short significand until it is canonical. -/
theorem exists_isCanonical {n : Nat} {g : Int} (hn : 0 < n) (hlt : n < 2 ^ 53)
    (hleast : -1074 ≤ g) (hgreatest : g ≤ 971) :
    ∃ m e, Scaled.IsCanonical ⟨m, e⟩ ∧ Scaled.toRat ⟨m, e⟩ = Scaled.toRat ⟨n, g⟩ := by
  have hlog := (Nat.log2_lt hn.ne').2 hlt
  -- As many as there is place for, above the significand and above the least exponent.
  obtain ⟨k, hk⟩ : ∃ k, k = min (52 - n.log2) (g + 1074).toNat := ⟨_, rfl⟩
  have hpos : 0 < n * 2 ^ k := Nat.mul_pos hn (Nat.two_pow_pos k)
  have hshifted := log2_mul_two_pow hn k
  refine ⟨n * 2 ^ k, g - k, isCanonical_mk.2 ⟨hpos, ?_, by omega, by omega, ?_⟩, ?_⟩
  · exact (Nat.log2_lt hpos.ne').1 (by omega)
  · by_cases hnormal : n.log2 + k = 52
    · exact .inr ((Nat.le_log2 hpos.ne').1 (by omega))
    · exact .inl (by omega)
  · have hg : g = k + (g - k) := by omega
    rw [Scaled.toRat, Scaled.toRat, Nat.cast_mul, mul_assoc, Nat.cast_pow, Nat.cast_ofNat,
      ← zpow_natCast, ← zpow_add₀ two_ne_zero, ← hg]

theorem toRat?_ofMagnitude_bits {m : Nat} {e : Int} (h : Scaled.IsCanonical ⟨m, e⟩) :
    toRat? (ofMagnitude (Scaled.bits ⟨m, e⟩)) = some (Scaled.toRat ⟨m, e⟩) := by
  unfold toRat?
  rw [unpack_ofMagnitude_bits h.pos h]

theorem toRat?_neg_ofMagnitude_bits {m : Nat} {e : Int} (h : Scaled.IsCanonical ⟨m, e⟩) :
    toRat? (-ofMagnitude (Scaled.bits ⟨m, e⟩)) = some (-Scaled.toRat ⟨m, e⟩) := by
  unfold toRat?
  rw [unpack_neg (unpack_ofMagnitude_bits h.pos h)]

/-- A multiple of a power of two is a double if it takes no more than 53 bits. -/
theorem isDouble_mul_two_zpow {i g : Int} (hlt : i.natAbs < 2 ^ 53) (hleast : -1074 ≤ g)
    (hgreatest : g ≤ 971) : IsDouble (i * 2 ^ g) := by
  by_cases hzero : i = 0
  · refine ⟨0, ?_⟩
    rw [toRat?_of_isZero isZero_zero, hzero, Int.cast_zero, zero_mul]
  · obtain ⟨m, e, hcanonical, hnumber⟩ :=
      exists_isCanonical (Int.natAbs_pos.2 hzero) hlt hleast hgreatest
    have habs : Scaled.toRat ⟨m, e⟩ = |(i : ℚ)| * 2 ^ g := by
      rw [hnumber, Scaled.toRat, Nat.cast_natAbs, Int.cast_abs]
    rcases le_total 0 (i : ℚ) with hsign | hsign
    · refine ⟨_, (toRat?_ofMagnitude_bits hcanonical).trans ?_⟩
      rw [habs, abs_of_nonneg hsign]
    · refine ⟨_, (toRat?_neg_ofMagnitude_bits hcanonical).trans ?_⟩
      rw [habs, abs_of_nonpos hsign, neg_mul, neg_neg]

/-- A double that is a whole multiple of `2 ^ g`, of at most `bound` times it. -/
def IsMultiple (g : Int) (bound : Nat) (x : Float) : Prop :=
  ∃ i : Int, i.natAbs ≤ bound ∧ toRat? x = some ((i : ℚ) * 2 ^ g)

example : IsMultiple (-3) 9 (-0.75) := ⟨-6, by decide, by decide +kernel⟩

/-- Products of multiples are multiples, as long as there is room for them. -/
theorem IsMultiple.multiply {x y : Float} {g h : Int} {a b : Nat} (hx : IsMultiple g a x)
    (hy : IsMultiple h b y) (hroom : a * b < 2 ^ 53) (hleast : -1074 ≤ g + h)
    (hgreatest : g + h ≤ 971) : IsMultiple (g + h) (a * b) (x * y) := by
  obtain ⟨i, hi, hx⟩ := hx
  obtain ⟨j, hj, hy⟩ := hy
  have hbound : (i * j).natAbs ≤ a * b := Int.natAbs_mul i j ▸ Nat.mul_le_mul hi hj
  have hnumber : (i : ℚ) * 2 ^ g * (j * 2 ^ h) = ((i * j : ℤ) : ℚ) * 2 ^ (g + h) := by
    rw [zpow_add₀ two_ne_zero, Int.cast_mul]
    ring
  have hdouble := isDouble_mul_two_zpow (hbound.trans_lt hroom) hleast hgreatest
  refine ⟨i * j, hbound, ?_⟩
  rw [toRat?_multiply hx hy (hnumber ▸ hdouble), hnumber]

end Binary64

end PolyCalc
