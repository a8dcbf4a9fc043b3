import Mathlib.Data.Int.Log
import Mathlib.Data.Rat.Floor
import Mathlib.Tactic.Positivity
import Mathlib.Tactic.Ring
import PolyCalc.Binary64.Shortest
import PolyCalc.Proofs.Binary64.Bits

/-!
# Rounding What Needs No Rounding

The nearest double to a rational number that is a double is that double. The
rounding works on numerators and denominators and on shifted natural numbers,
so the argument is made about the rational number that these stand for: its
binary logarithm is what `exponentOf` computes, and for a canonical number the
last place of the result is worth as much as the last place of the number.

Both ways of writing a number down, with a power of two and with a power of
ten, have a bound beyond which they do not form the quotient. Neither a double
nor its exact decimal expansion is out of these bounds, so each rounds to the
double. The shortest decimal was only taken if it does.

## Main definitions

* `Scaled.toRat`: The number that a significand and an exponent stand for.
* `Decimal.toRat`: The number that digits and an exponent stand for.

## Theorems

* `exponentOf_eq_log`: The position of the leading bit is the binary logarithm.
* `nearestBits_of_eq_toRat`: A canonical number has its own bits as the nearest.
* `nearestBits_shortest`: The shortest decimal rounds to the number.
-/

namespace PolyCalc

namespace Binary64

/-- The number `significand * 2 ^ exponent`. -/
def Scaled.toRat (x : Scaled) : ℚ := x.significand * 2 ^ x.exponent

/-- The number `digits * 10 ^ exponent`. -/
def Decimal.toRat (d : Decimal) : ℚ := d.digits * 10 ^ d.exponent

/-- A power with an integer exponent as the quotient of two with natural ones. -/
theorem pow_toNat_div_pow_toNat {b : ℚ} (hb : b ≠ 0) (e : ℤ) :
    b ^ e.toNat / b ^ (-e).toNat = b ^ e := by
  have he : (e.toNat : ℤ) - ((-e).toNat : ℤ) = e := by omega
  rw [← zpow_natCast, ← zpow_natCast, ← zpow_sub₀ hb, he]

theorem Scaled.den_pos (x : Scaled) : 0 < x.den := by
  rw [Scaled.den, Nat.one_shiftLeft]
  exact Nat.two_pow_pos _

theorem Decimal.den_pos (d : Decimal) : 0 < d.den := Nat.pow_pos (by decide)

theorem Scaled.num_div_den (x : Scaled) : (x.num : ℚ) / x.den = x.toRat := by
  rw [Scaled.num, Scaled.den, Nat.shiftLeft_eq, Nat.one_shiftLeft, Scaled.toRat,
    ← pow_toNat_div_pow_toNat two_ne_zero x.exponent]
  push_cast
  exact mul_div_assoc _ _ _

theorem Decimal.num_div_den (d : Decimal) : (d.num : ℚ) / d.den = d.toRat := by
  have hnum : d.num = d.digits * 10 ^ d.exponent.toNat := rfl
  have hden : d.den = 10 ^ (-d.exponent).toNat := rfl
  rw [hnum, hden, Decimal.toRat, ← pow_toNat_div_pow_toNat (by decide) d.exponent]
  push_cast
  exact mul_div_assoc _ _ _

/-! ## The leading bit -/

theorem two_zpow_le_div_iff (num : Nat) {den : Nat} (hden : 0 < den) (e : ℤ) :
    (2 : ℚ) ^ e ≤ num / den ↔ den <<< e.toNat ≤ num <<< (-e).toNat := by
  have hd : (0 : ℚ) < den := Nat.cast_pos.2 hden
  have hp : (0 : ℚ) < 2 ^ (-e).toNat := pow_pos two_pos _
  rw [← pow_toNat_div_pow_toNat two_ne_zero e, div_le_div_iff₀ hp hd, Nat.shiftLeft_eq,
    Nat.shiftLeft_eq, ← Nat.cast_le (α := ℚ)]
  push_cast
  rw [mul_comm (den : ℚ)]

/-- The lengths of numerator and denominator enclose the quotient in two binades. -/
theorem two_zpow_bounds {num den : Nat} (hnum : 0 < num) (hden : 0 < den) :
    (2 : ℚ) ^ ((num.log2 : ℤ) - den.log2 - 1) ≤ num / den
      ∧ (num / den : ℚ) < 2 ^ ((num.log2 : ℤ) - den.log2 + 1) := by
  have hd : (0 : ℚ) < den := Nat.cast_pos.2 hden
  have hnumLow : (2 : ℚ) ^ num.log2 ≤ num := by
    exact_mod_cast Nat.log2_self_le (Nat.ne_of_gt hnum)
  have hnumHigh : (num : ℚ) < 2 ^ (num.log2 + 1) := by
    exact_mod_cast Nat.lt_log2_self
  have hdenLow : (2 : ℚ) ^ den.log2 ≤ den := by
    exact_mod_cast Nat.log2_self_le (Nat.ne_of_gt hden)
  have hdenHigh : (den : ℚ) < 2 ^ (den.log2 + 1) := by
    exact_mod_cast Nat.lt_log2_self
  constructor
  · have hlow : (2 : ℚ) ^ ((num.log2 : ℤ) - den.log2 - 1) = 2 ^ num.log2 / 2 ^ (den.log2 + 1) := by
      rw [← zpow_natCast, ← zpow_natCast, ← zpow_sub₀ two_ne_zero]
      congr 1
      omega
    rw [hlow]
    exact div_le_div₀ (by positivity) hnumLow hd hdenHigh.le
  · have hhigh : (2 : ℚ) ^ ((num.log2 : ℤ) - den.log2 + 1) = 2 ^ (num.log2 + 1) / 2 ^ den.log2 := by
      rw [← zpow_natCast, ← zpow_natCast, ← zpow_sub₀ two_ne_zero]
      congr 1
      omega
    rw [hhigh]
    exact div_lt_div₀ hnumHigh hdenLow (by positivity) (by positivity)

/-- The position of the leading bit of a quotient is its binary logarithm. -/
theorem exponentOf_eq_log {num den : Nat} (hnum : 0 < num) (hden : 0 < den) :
    exponentOf num den = Int.log 2 (num / den : ℚ) := by
  have hq : (0 : ℚ) < num / den := div_pos (Nat.cast_pos.2 hnum) (Nat.cast_pos.2 hden)
  rcases two_zpow_bounds hnum hden with ⟨hlow, hhigh⟩
  have hlow' := (Int.zpow_le_iff_le_log (b := 2) (by decide) hq).1 hlow
  have hhigh' := (Int.lt_zpow_iff_log_lt (b := 2) (by decide) hq).1 hhigh
  -- Between the two binades the comparison of the definition decides.
  have hstep := two_zpow_le_div_iff num hden ((num.log2 : ℤ) - den.log2)
  rw [show (2 : ℚ) = ((2 : ℕ) : ℚ) from rfl, Int.zpow_le_iff_le_log (by decide) hq] at hstep
  unfold exponentOf
  simp only
  by_cases h : den <<< ((num.log2 : ℤ) - den.log2).toNat
      ≤ num <<< (-((num.log2 : ℤ) - den.log2)).toNat
  · rw [if_pos h]
    have := hstep.2 h
    omega
  · rw [if_neg h]
    have := mt hstep.1 h
    omega

/-! ## Exact results -/

/-- A quotient without a remainder is not rounded. -/
theorem divRound_mul (m : Nat) {d : Nat} (hd : 0 < d) : divRound (m * d) d = m := by
  unfold divRound
  simp only [Nat.mul_mod_left]
  rw [if_pos (by omega), Nat.mul_div_cancel _ hd]

theorem shiftLeft_eq_mul_of_div_eq {num den m : Nat} (hden : 0 < den) {e : ℤ}
    (h : (num / den : ℚ) = m * 2 ^ e) :
    num <<< (-e).toNat = m * den <<< e.toNat := by
  have hd : (den : ℚ) ≠ 0 := Nat.cast_ne_zero.2 (Nat.ne_of_gt hden)
  have hp : (2 : ℚ) ^ (-e).toNat ≠ 0 := pow_ne_zero _ two_ne_zero
  rw [← pow_toNat_div_pow_toNat two_ne_zero e, ← mul_div_assoc, div_eq_div_iff hd hp] at h
  rw [Nat.shiftLeft_eq, Nat.shiftLeft_eq, ← Nat.cast_inj (R := ℚ)]
  push_cast
  rw [h]
  ring

theorem Scaled.IsCanonical.toRat_pos {x : Scaled} (h : x.IsCanonical) : 0 < x.toRat :=
  mul_pos (Nat.cast_pos.2 h.pos) (zpow_pos two_pos _)

/-- The last place of a canonical number, from its binary logarithm. -/
theorem Scaled.IsCanonical.max_log {x : Scaled} (h : x.IsCanonical) :
    max (Int.log 2 x.toRat - 52) (-1074) = x.exponent := by
  have hleast := h.least
  have hp : (0 : ℚ) < 2 ^ x.exponent := zpow_pos two_pos _
  have hhigh : x.toRat < 2 ^ (53 + x.exponent) := by
    rw [Scaled.toRat, zpow_add₀ two_ne_zero]
    exact mul_lt_mul_of_pos_right (by exact_mod_cast h.lt) hp
  have hlog := (Int.lt_zpow_iff_log_lt (b := 2) (by decide) h.toRat_pos).1 hhigh
  -- A subnormal number is cut off at the least place, a normal one has 53 bits.
  rcases h.normal with hnormal | hnormal
  · omega
  · have hlow : (2 : ℚ) ^ (52 + x.exponent) ≤ x.toRat := by
      rw [Scaled.toRat, zpow_add₀ two_ne_zero]
      exact mul_le_mul_of_nonneg_right (by exact_mod_cast hnormal) hp.le
    have := (Int.zpow_le_iff_le_log (b := 2) (by decide) h.toRat_pos).1 hlow
    omega

theorem Scaled.IsCanonical.bits_lt {x : Scaled} (h : x.IsCanonical) :
    x.bits < infinityBits := by
  rcases x with ⟨m, e⟩
  rcases isCanonical_mk.1 h with ⟨-, hlt, hleast, hgreatest, -⟩
  rw [bits_mk, infinityBits]
  omega

theorem Scaled.IsCanonical.bits_pos {x : Scaled} (h : x.IsCanonical) : 0 < x.bits := by
  rcases x with ⟨m, e⟩
  rcases isCanonical_mk.1 h with ⟨hpos, -⟩
  rw [bits_mk]
  omega

/-- A canonical number has its own bits as the nearest. -/
theorem nearestBits_of_eq_toRat {num den : Nat} (hden : 0 < den) {x : Scaled}
    (hx : x.IsCanonical) (h : (num / den : ℚ) = x.toRat) : nearestBits num den = x.bits := by
  -- A canonical number is not zero, so the numerator is not.
  have hnum : 0 < num := by
    rcases Nat.eq_zero_or_pos num with rfl | hpos
    · have := hx.toRat_pos
      rw [← h, Nat.cast_zero, zero_div] at this
      exact absurd this (lt_irrefl _)
    · exact hpos
  unfold nearestBits
  simp only
  rw [if_neg (Nat.ne_of_gt hnum), exponentOf_eq_log hnum hden, h, hx.max_log,
    shiftLeft_eq_mul_of_div_eq hden h, divRound_mul _ (by rw [Nat.shiftLeft_eq]; positivity)]
  exact Nat.min_eq_left hx.bits_lt.le

theorem Scaled.IsCanonical.nearestBits {x : Scaled} (h : x.IsCanonical) :
    x.nearestBits = x.bits := by
  -- The bounds lie far outside the range of doubles.
  have hlog := (Nat.log2_lt (Nat.ne_of_gt h.pos)).2 h.lt
  have hleast := h.least
  have hgreatest := h.greatest
  unfold Scaled.nearestBits
  simp only
  rw [if_neg (Nat.ne_of_gt h.pos), if_neg (by omega), if_neg (by omega)]
  exact nearestBits_of_eq_toRat x.den_pos h x.num_div_den

/-! ## Decimals of a double -/

theorem toRat_exactDecimal (x : Scaled) : (exactDecimal x).toRat = x.toRat := by
  have hpow : Nat.pow 5 (-x.exponent).toNat = 5 ^ (-x.exponent).toNat := rfl
  rw [Decimal.toRat, exactDecimal, Scaled.num, Scaled.toRat, Nat.shiftLeft_eq, hpow]
  push_cast
  rcases le_total 0 x.exponent with hle | hle
  · have hplaces : (-x.exponent).toNat = 0 := by omega
    rw [min_eq_right hle, hplaces, pow_zero, zpow_zero, mul_one, mul_one, ← zpow_natCast,
      Int.toNat_of_nonneg hle]
  -- A power of ten takes the power of five along, and the digits take it back.
  · have hten : (10 : ℚ) ^ x.exponent = 5 ^ x.exponent * 2 ^ x.exponent := by
      rw [← mul_zpow]
      norm_num
    have hfive : (5 : ℚ) ^ (-x.exponent).toNat = 5 ^ (-x.exponent) := by
      rw [← zpow_natCast, Int.toNat_of_nonneg (by omega)]
    rw [min_eq_left hle, Int.toNat_of_nonpos hle, pow_zero, mul_one, hfive, hten, mul_assoc,
      ← mul_assoc (5 ^ (-x.exponent)), ← zpow_add₀ (by norm_num), neg_add_cancel, zpow_zero,
      one_mul]

/-- A decimal with the value of a canonical number rounds to it, unless it is
    beyond the bounds. -/
theorem Decimal.nearestBits_of_toRat_eq {d : Decimal} {x : Scaled} (hx : x.IsCanonical)
    (h : d.toRat = x.toRat) (hhigh : d.exponent < 400)
    (hlow : -400 ≤ (d.digits.log2 : ℤ) + d.exponent) : d.nearestBits = x.bits := by
  have hdigits : d.digits ≠ 0 := by
    intro hzero
    have := hx.toRat_pos
    rw [← h, Decimal.toRat, hzero, Nat.cast_zero, zero_mul] at this
    exact absurd this (lt_irrefl _)
  unfold Decimal.nearestBits
  rw [if_neg hdigits, if_neg (by omega), if_neg (by omega)]
  exact nearestBits_of_eq_toRat d.den_pos hx (d.num_div_den.trans h)

theorem nearestBits_exactDecimal {x : Scaled} (hx : x.IsCanonical) :
    (exactDecimal x).nearestBits = x.bits := by
  refine Decimal.nearestBits_of_toRat_eq hx (toRat_exactDecimal x) ?_ ?_
  · exact lt_of_le_of_lt (min_le_right _ _) (by decide)
  -- The digits of a number with `n` binary places are at least `5 ^ n`.
  · have hdigits : 2 ^ (-x.exponent).toNat ≤ (exactDecimal x).digits := by
      have hnum : 1 ≤ x.num := by
        rw [Scaled.num, Nat.shiftLeft_eq]
        exact Nat.mul_pos hx.pos (Nat.two_pow_pos _)
      exact (Nat.pow_le_pow_left (by decide) _).trans (Nat.le_mul_of_pos_left _ hnum)
    have hne : (exactDecimal x).digits ≠ 0 :=
      Nat.ne_of_gt (lt_of_lt_of_le (Nat.two_pow_pos _) hdigits)
    have hlog := (Nat.le_log2 hne).2 hdigits
    have hexponent : (exactDecimal x).exponent = min x.exponent 0 := rfl
    omega

/-- The shortest decimal of a double rounds to the double. -/
theorem nearestBits_shortest {x : Scaled} (hx : x.IsCanonical) :
    (shortest x).nearestBits = x.bits := by
  unfold shortest
  simp only
  split
  · rename_i d hfound
    -- A neighbour was only taken because it rounds back.
    rcases List.exists_of_findSome?_eq_some hfound with ⟨n, -, hn⟩
    have hbits := List.find?_some hn
    rw [← hx.nearestBits]
    exact of_decide_eq_true hbits
  · exact nearestBits_exactDecimal hx

end Binary64

end PolyCalc
