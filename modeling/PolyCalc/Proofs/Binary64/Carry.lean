import PolyCalc.Proofs.Binary64.Exactness

/-!
# Sums Are Rounded as Literals Are

A literal is rounded on its bits: the quotient is rounded to a natural number of last
places, and this number is added to the exponent field, so that a significand that is full
carries by plain addition and what is too large is cut off at infinity. A sum is rounded on
its parts: places are shifted out one by one, with two bits to remember them by, the
significand is rounded and shifted once more if it has become too long, and it is only when
the parts are put into a word that an exponent beyond the greatest one becomes an infinity.

The two are the same function of the exact number. The two bits are all that rounding to
the nearest has to know of the places that are gone, a second shift takes place exactly for
a carry, and the bits of the word are the sum that the first way computes.

## Main definitions

* `lastPlace`: The exponent of the last place of a rounded number.
* `inLastPlaces`: Its significand.
* `carried`: The parts of a number with a significand that was rounded.

## Theorems

* `divRound_congr`: Rounding depends on the quotient only.
* `roundedMantissa_repeat`: Shifting and rounding is rounding a quotient.
* `round_of_lastPlace`: The parts of a rounded number.
* `nearestBits_of_lastPlace`: The bits of a rounded quotient.
* `toNat_pack_round`: The bits of a rounded number are those of the nearest double.
-/

namespace PolyCalc

namespace Binary64

open Float.Model (UnpackedFloat Format totalExponent)
open Float.Model.UnpackedFloat

/-! ## Quotients -/

theorem divRound_of_lt {a b : Nat} (h : 2 * (a % b) < b) : divRound a b = a / b := if_pos h

theorem divRound_of_gt {a b : Nat} (h : b < 2 * (a % b)) : divRound a b = a / b + 1 := by
  unfold divRound
  simp only
  rw [if_neg (by omega), if_pos h]

theorem divRound_of_eq {a b : Nat} (h : 2 * (a % b) = b) :
    divRound a b = a / b + a / b % 2 := by
  unfold divRound
  simp only
  rw [if_neg (by omega), if_neg (by omega)]

theorem div_le_divRound (a b : Nat) : a / b ≤ divRound a b := by
  rcases Nat.lt_trichotomy (2 * (a % b)) b with hlt | heq | hgt
  · rw [divRound_of_lt hlt]
  · rw [divRound_of_eq heq]
    omega
  · rw [divRound_of_gt hgt]
    omega

theorem divRound_le_succ (a b : Nat) : divRound a b ≤ a / b + 1 := by
  rcases Nat.lt_trichotomy (2 * (a % b)) b with hlt | heq | hgt
  · rw [divRound_of_lt hlt]
    omega
  · rw [divRound_of_eq heq]
    omega
  · rw [divRound_of_gt hgt]

theorem divRound_mul_left {c : Nat} (hc : 0 < c) (a b : Nat) :
    divRound (c * a) (c * b) = divRound a b := by
  have hlow : 2 * (c * (a % b)) < c * b ↔ 2 * (a % b) < b := by
    rw [Nat.mul_left_comm, Nat.mul_lt_mul_left hc]
  have hhigh : c * b < 2 * (c * (a % b)) ↔ b < 2 * (a % b) := by
    rw [Nat.mul_left_comm 2, Nat.mul_lt_mul_left hc]
  unfold divRound
  simp only [Nat.mul_div_mul_left a b hc, Nat.mul_mod_mul_left, hlow, hhigh]

/-- Equal quotients are rounded to the same number. -/
theorem divRound_congr {a b a' b' : Nat} (hb : 0 < b) (hb' : 0 < b') (h : a * b' = a' * b) :
    divRound a b = divRound a' b' :=
  calc divRound a b
      = divRound (b' * a) (b' * b) := (divRound_mul_left hb' a b).symm
    _ = divRound (b * a') (b * b') := by
        rw [Nat.mul_comm b' a, h, Nat.mul_comm a' b, Nat.mul_comm b' b]
    _ = divRound a' b' := divRound_mul_left hb a' b'

/-- A quotient is rounded to less than an even number if it lies more than a half below
    it. A half is rounded up to an even number. -/
theorem divRound_lt_iff {a b n : Nat} (hb : 0 < b) (hn : n % 2 = 0) :
    divRound a b < n ↔ 2 * a + b < 2 * (n * b) := by
  have hdiv := Nat.div_add_mod a b
  have hmod := Nat.mod_lt a hb
  have hbelow (k : Nat) (h : a / b + k < n) : b * (a / b) + b * k + b ≤ n * b := by
    have hle := Nat.mul_le_mul_left b (Nat.succ_le_of_lt h)
    rwa [Nat.mul_succ, Nat.mul_add, Nat.mul_comm b n] at hle
  have habove (k : Nat) (h : ¬a / b + k < n) : n * b ≤ b * (a / b) + b * k := by
    have hle := Nat.mul_le_mul_left b (Nat.le_of_not_lt h)
    rwa [Nat.mul_add, Nat.mul_comm b n] at hle
  -- Rounding up is adding one, for the half as well, where it makes an odd quotient even.
  have hround : divRound a b < n ↔ a / b + (if 2 * (a % b) < b then 0 else 1) < n := by
    rcases Nat.lt_trichotomy (2 * (a % b)) b with hlt | heq | hgt
    · rw [divRound_of_lt hlt, if_pos hlt, Nat.add_zero]
    · rw [divRound_of_eq heq, if_neg (by omega)]
      omega
    · rw [divRound_of_gt hgt, if_neg (by omega)]
  rw [hround]
  split
  · refine ⟨fun h => ?_, fun h => by_contra fun hnot => ?_⟩
    · have hle := hbelow 0 h
      omega
    · have hle := habove 0 hnot
      omega
  · refine ⟨fun h => ?_, fun h => by_contra fun hnot => ?_⟩
    · have hle := hbelow 1 h
      omega
    · have hle := habove 1 hnot
      omega

/-! ## Shifting -/

/-- What shifting out a number of places leaves, and whether anything is lost by it. -/
theorem repeat_shiftRightOne_parts (m k : Nat) :
    (Nat.repeat ExtendedMantissa.shiftRightOne k ⟨m, false, false⟩).mantissa = m / 2 ^ k
      ∧ ((Nat.repeat ExtendedMantissa.shiftRightOne k ⟨m, false, false⟩).roundBit
        || (Nat.repeat ExtendedMantissa.shiftRightOne k ⟨m, false, false⟩).stickyBit)
          = (m % 2 ^ k != 0) := by
  induction k with
  | zero =>
      rw [Nat.pow_zero, Nat.div_one, Nat.mod_one]
      exact ⟨rfl, rfl⟩
  | succ k ih =>
      rcases ih with ⟨hmantissa, hlost⟩
      simp only [Nat.repeat, ExtendedMantissa.shiftRightOne, hmantissa, hlost]
      refine ⟨by rw [Nat.div_div_eq_div_mul, Nat.pow_succ], ?_⟩
      rw [Nat.mod_pow_succ]
      have hpow := Nat.two_pow_pos k
      rcases Nat.mod_two_eq_zero_or_one (m / 2 ^ k) with hbit | hbit
      · rw [hbit]
        simp
      · rw [hbit]
        simp

/-- Shifting and rounding is rounding the quotient by a power of two. -/
theorem roundedMantissa_repeat (m k : Nat) :
    (Nat.repeat ExtendedMantissa.shiftRightOne k ⟨m, false, false⟩).roundedMantissa
      = divRound m (2 ^ k) := by
  cases k with
  | zero =>
      have hone := divRound_mul m Nat.one_pos
      rw [Nat.mul_one] at hone
      rw [Nat.pow_zero, hone]
      rfl
  | succ k =>
      rcases repeat_shiftRightOne_parts m k with ⟨hmantissa, hlost⟩
      have hpow : 2 ^ (k + 1) = 2 ^ k * 2 := Nat.pow_succ 2 k
      have hlt := Nat.mod_lt m (Nat.two_pow_pos k)
      have hquotient : m / 2 ^ (k + 1) = m / 2 ^ k / 2 := by
        rw [Nat.div_div_eq_div_mul, Nat.pow_succ]
      have hremainder : m % 2 ^ (k + 1) = m % 2 ^ k + 2 ^ k * (m / 2 ^ k % 2) :=
        Nat.mod_pow_succ
      simp only [Nat.repeat, ExtendedMantissa.shiftRightOne, hmantissa, hlost]
      -- The last place that was shifted out is worth a half, and the others are worth less.
      rcases Nat.mod_two_eq_zero_or_one (m / 2 ^ k) with hbit | hbit
      · rw [hbit] at hremainder ⊢
        rw [divRound_of_lt (by omega), hquotient]
        cases m % 2 ^ k != 0 with
        | false => rfl
        | true => rfl
      · rw [hbit] at hremainder ⊢
        cases hrest : m % 2 ^ k != 0 with
        | false =>
            have hzero : m % 2 ^ k = 0 := by simpa using hrest
            rw [divRound_of_eq (by omega), hquotient]
            rfl
        | true =>
            have hsome : m % 2 ^ k ≠ 0 := by simpa using hrest
            rw [divRound_of_gt (by omega), hquotient]
            rfl

/-! ## The parts of a rounded number -/

/-- The last place of a rounded number, as its exponent. -/
def lastPlace (m : Nat) (e : Int) : Int := max ((m.log2 : Int) + e - 52) (-1074)

/-- The significand of a rounded number, in last places. -/
def inLastPlaces (m : Nat) (e : Int) : Nat :=
  divRound (m * 2 ^ (e - lastPlace m e).toNat) (2 ^ (lastPlace m e - e).toNat)

theorem targetExponent_eq_lastPlace (m : Nat) (e : Int) :
    Format.binary64.targetExponent (totalExponent m e) = lastPlace m e := by
  have htarget : Format.binary64.targetExponent (totalExponent m e)
      = max ((m.log2 : Int) + 1 + e - 53) (-1074) := rfl
  rw [htarget, lastPlace]
  omega

theorem lastPlace_mul_two_pow {m : Nat} (hm : 0 < m) (k : Nat) (e : Int) :
    lastPlace (m * 2 ^ k) e = lastPlace m (e + k) := by
  rw [lastPlace, lastPlace, log2_mul_two_pow hm]
  push_cast
  omega

/-- No significand is longer than 53 places, but for one that has become full. -/
theorem inLastPlaces_le (m : Nat) (e : Int) : inLastPlaces m e ≤ 2 ^ 53 := by
  have hlast : (m.log2 : Int) + e - 52 ≤ lastPlace m e := le_max_left _ _
  have hroom : m * 2 ^ (e - lastPlace m e).toNat < 2 ^ 53 * 2 ^ (lastPlace m e - e).toNat :=
    calc m * 2 ^ (e - lastPlace m e).toNat
        < 2 ^ (m.log2 + 1) * 2 ^ (e - lastPlace m e).toNat :=
          Nat.mul_lt_mul_of_pos_right Nat.lt_log2_self (Nat.two_pow_pos _)
      _ ≤ 2 ^ 53 * 2 ^ (lastPlace m e - e).toNat := by
          rw [← Nat.pow_add, ← Nat.pow_add]
          exact Nat.pow_le_pow_right (by decide) (by omega)
  have hdiv := (Nat.div_lt_iff_lt_mul (Nat.two_pow_pos _)).2 hroom
  exact (divRound_le_succ _ _).trans hdiv

/-- A significand has 53 places unless the last one is the least there is. -/
theorem le_inLastPlaces {m : Nat} (hm : 0 < m) (e : Int) :
    lastPlace m e = -1074 ∨ 2 ^ 52 ≤ inLastPlaces m e := by
  by_cases hleast : lastPlace m e = -1074
  · exact .inl hleast
  · have hlast : (m.log2 : Int) + e - 52 = lastPlace m e := by
      unfold lastPlace at hleast ⊢
      omega
    have hfull : 2 ^ 52 * 2 ^ (lastPlace m e - e).toNat ≤ m * 2 ^ (e - lastPlace m e).toNat :=
      calc 2 ^ 52 * 2 ^ (lastPlace m e - e).toNat
          = 2 ^ m.log2 * 2 ^ (e - lastPlace m e).toNat := by
            rw [← Nat.pow_add, ← Nat.pow_add]
            congr 1
            omega
        _ ≤ m * 2 ^ (e - lastPlace m e).toNat :=
            Nat.mul_le_mul_right _ (Nat.log2_self_le hm.ne')
    refine .inr (Nat.le_of_not_lt fun hlt => ?_)
    have hlt := (divRound_lt_iff (Nat.two_pow_pos _) (by decide)).1 hlt
    omega

theorem shiftToTargetExponent_eq (m : Nat) (e : Int) :
    shiftToTargetExponent Format.binary64 m e .exact
      = (Nat.repeat ExtendedMantissa.shiftRightOne (lastPlace m e - e).toNat ⟨m, false, false⟩,
        e + (lastPlace m e - e).toNat) := by
  rw [← targetExponent_eq_lastPlace]
  rfl

/-- The parts of a number with a rounded significand: this may have become zero, or full, and
    then its last place is the next one. -/
def carried (sign : Sign) (r : Nat) (t : Int) : UnpackedFloat :=
  if h : 0 < r then
    if r < 2 ^ 53 then .finite sign r t h else .finite sign (2 ^ 52) (t + 1) (by decide)
  else .zero sign

/-- A significand that is short enough is not shifted again. -/
theorem shiftToTargetExponent_of_lt {r : Nat} {t : Int} (hr : r < 2 ^ 53) (ht : -1074 ≤ t) :
    shiftToTargetExponent Format.binary64 r t .exact = (⟨r, false, false⟩, t) := by
  have hlog : r.log2 ≤ 52 := by
    rcases Nat.eq_zero_or_pos r with rfl | hpos
    · decide
    · exact Nat.le_of_lt_succ ((Nat.log2_lt hpos.ne').2 hr)
  have hshift : (lastPlace r t - t).toNat = 0 := by
    unfold lastPlace
    omega
  rw [shiftToTargetExponent_eq, hshift, Int.natCast_zero, Int.add_zero]
  rfl

/-- A full significand is shifted once more, and nothing is lost. -/
theorem shiftToTargetExponent_full {t : Int} (ht : -1074 ≤ t) :
    shiftToTargetExponent Format.binary64 (2 ^ 53) t .exact
      = (⟨2 ^ 52, false, false⟩, t + 1) := by
  have hshift : (lastPlace (2 ^ 53) t - t).toNat = 1 := by
    unfold lastPlace
    rw [Nat.log2_two_pow]
    omega
  rw [shiftToTargetExponent_eq, hshift]
  rfl

/-- The second half of rounding, behind the first shift. -/
theorem roundWithAccuracy_of_shift (sign : Sign) {m : Nat} {e t : Int} {em : ExtendedMantissa}
    (h : shiftToTargetExponent Format.binary64 m e .exact = (em, t))
    (hr : em.roundedMantissa ≤ 2 ^ 53) (ht : -1074 ≤ t) :
    roundWithAccuracy Format.binary64 sign m e .exact = carried sign em.roundedMantissa t := by
  unfold roundWithAccuracy carried
  rw [h]
  dsimp only
  rcases hr.lt_or_eq with hlt | hfull
  · rw [shiftToTargetExponent_of_lt hlt ht]
    by_cases hpos : 0 < em.roundedMantissa
    · rw [dif_neg hpos.ne', dif_pos hpos, if_pos hlt]
    · rw [dif_pos (Nat.eq_zero_of_not_pos hpos), dif_neg hpos]
  · rw [hfull, shiftToTargetExponent_full ht]
    rfl

/-- The parts of a rounded number. -/
theorem round_of_lastPlace (sign : Sign) {m : Nat} (hm : 0 < m) (e : Int) :
    UnpackedFloat.round Format.binary64 sign m e
      = carried sign (inLastPlaces m e) (lastPlace m e) := by
  obtain ⟨k, hk⟩ : ∃ k, k = (e - lastPlace m e).toNat := ⟨_, rfl⟩
  have hround : UnpackedFloat.round Format.binary64 sign m e
      = roundWithAccuracy Format.binary64 sign
        (m <<< (e - Format.binary64.targetExponent (totalExponent m e)).toNat)
        (e - (e - Format.binary64.targetExponent (totalExponent m e)).toNat) .exact := rfl
  have hlast : lastPlace (m * 2 ^ k) (e - k) = lastPlace m e := by
    rw [lastPlace_mul_two_pow hm, Int.sub_add_cancel]
  have hshift : shiftToTargetExponent Format.binary64 (m * 2 ^ k) (e - k) .exact
      = (Nat.repeat ExtendedMantissa.shiftRightOne (lastPlace m e - e).toNat
          ⟨m * 2 ^ k, false, false⟩, lastPlace m e) := by
    rw [shiftToTargetExponent_eq, hlast]
    congr 2
    · omega
    · omega
  have hrounded : (Nat.repeat ExtendedMantissa.shiftRightOne (lastPlace m e - e).toNat
      ⟨m * 2 ^ k, false, false⟩).roundedMantissa = inLastPlaces m e := by
    rw [roundedMantissa_repeat, hk, inLastPlaces]
  rw [hround, targetExponent_eq_lastPlace, ← hk, Nat.shiftLeft_eq,
    roundWithAccuracy_of_shift sign hshift (hrounded ▸ inLastPlaces_le m e) (le_max_right _ _),
    hrounded]

/-! ## The bits of a rounded number -/

theorem toNat_pack_zero (sign : Sign) :
    (UnpackedFloat.pack Format.binary64 (.zero sign)).toNat = sign.toBitVec.toNat * 2 ^ 63 := by
  cases sign <;> rfl

theorem toNat_pack_infinity (sign : Sign) :
    (UnpackedFloat.pack Format.binary64 (.infinity sign)).toNat
      = sign.toBitVec.toNat * 2 ^ 63 + infinityBits := by
  cases sign <;> rfl

/-- Parts beyond the greatest exponent are put together to an infinity. -/
theorem toNat_pack_finite_of_lt {sign : Sign} {m : Nat} {e : Int} (hpos : 0 < m) (he : 971 < e) :
    (UnpackedFloat.pack Format.binary64 (.finite sign m e hpos)).toNat
      = sign.toBitVec.toNat * 2 ^ 63 + infinityBits := by
  have hbias : Format.binary64.exponentBias = 1023 := rfl
  rw [← toNat_pack_infinity]
  unfold UnpackedFloat.pack
  dsimp only
  rw [if_pos (by omega)]

/-- Parts that are canonical, but for their exponent, have the bits that the formula gives,
    or those of an infinity. -/
theorem toNat_pack_min {sign : Sign} {m : Nat} {e : Int} (hpos : 0 < m) (hlt : m < 2 ^ 53)
    (hleast : -1074 ≤ e) (hnormal : e = -1074 ∨ 2 ^ 52 ≤ m) :
    (UnpackedFloat.pack Format.binary64 (.finite sign m e hpos)).toNat
      = sign.toBitVec.toNat * 2 ^ 63 + min ((e + 1074).toNat * 2 ^ 52 + m) infinityBits := by
  by_cases hgreatest : e ≤ 971
  · have hcanonical := isCanonical_mk.2 ⟨hpos, hlt, hleast, hgreatest, hnormal⟩
    have hbits := hcanonical.bits_lt
    rw [toNat_pack_finite hpos hcanonical]
    rw [bits_mk] at hbits ⊢
    rw [Nat.min_eq_left hbits.le]
  · have hbeyond : infinityBits ≤ (e + 1074).toNat * 2 ^ 52 + m := by
      unfold infinityBits
      omega
    rw [toNat_pack_finite_of_lt hpos (by omega), Nat.min_eq_right hbeyond]

theorem toNat_pack_carried {sign : Sign} {r : Nat} {t : Int} (hr : r ≤ 2 ^ 53)
    (hleast : -1074 ≤ t) (hnormal : t = -1074 ∨ 2 ^ 52 ≤ r) :
    (UnpackedFloat.pack Format.binary64 (carried sign r t)).toNat
      = sign.toBitVec.toNat * 2 ^ 63 + min ((t + 1074).toNat * 2 ^ 52 + r) infinityBits := by
  unfold carried
  rcases Nat.eq_zero_or_pos r with rfl | hpos
  · have hnone : min ((t + 1074).toNat * 2 ^ 52 + 0) infinityBits = 0 := by omega
    rw [dif_neg (Nat.lt_irrefl 0), toNat_pack_zero, hnone, Nat.add_zero]
  · rw [dif_pos hpos]
    rcases hr.lt_or_eq with hlt | rfl
    · rw [if_pos hlt, toNat_pack_min hpos hlt hleast hnormal]
    · -- The carry adds one to the exponent field.
      have hcarry :
          (t + 1 + 1074).toNat * 2 ^ 52 + 2 ^ 52 = (t + 1074).toNat * 2 ^ 52 + 2 ^ 53 := by
        omega
      rw [if_neg (Nat.lt_irrefl _),
        toNat_pack_min (Nat.two_pow_pos 52) (by omega) (by omega) (.inr le_rfl), hcarry]

/-! ## The nearest double -/

theorem log_toRat {m : Nat} (hm : 0 < m) (e : Int) :
    Int.log 2 (Scaled.toRat ⟨m, e⟩) = m.log2 + e := by
  have hp : (0 : ℚ) < 2 ^ e := zpow_pos two_pos e
  have hpos : 0 < Scaled.toRat ⟨m, e⟩ := mul_pos (Nat.cast_pos.2 hm) hp
  have hlow : (2 : ℚ) ^ ((m.log2 : ℤ) + e) ≤ Scaled.toRat ⟨m, e⟩ := by
    rw [Scaled.toRat, zpow_add₀ two_ne_zero, zpow_natCast]
    exact mul_le_mul_of_nonneg_right (by exact_mod_cast Nat.log2_self_le hm.ne') hp.le
  have hhigh : Scaled.toRat ⟨m, e⟩ < 2 ^ ((m.log2 : ℤ) + 1 + e) := by
    rw [Scaled.toRat, zpow_add₀ two_ne_zero]
    exact mul_lt_mul_of_pos_right (by exact_mod_cast Nat.lt_log2_self) hp
  have hle := (Int.zpow_le_iff_le_log (b := 2) (by decide) hpos).1 hlow
  have hlt := (Int.lt_zpow_iff_log_lt (b := 2) (by decide) hpos).1 hhigh
  omega

theorem nearestBits_of_lastPlace {m : Nat} (hm : 0 < m) (e : Int) :
    nearestBits (Scaled.num ⟨m, e⟩) (Scaled.den ⟨m, e⟩)
      = min ((lastPlace m e + 1074).toNat * 2 ^ 52 + inLastPlaces m e) infinityBits := by
  have hden : 0 < Scaled.den ⟨m, e⟩ := Scaled.den_pos _
  have hnum : 0 < Scaled.num ⟨m, e⟩ := by
    rw [Scaled.num, Nat.shiftLeft_eq]
    exact Nat.mul_pos hm (Nat.two_pow_pos _)
  have hlast : max (exponentOf (Scaled.num ⟨m, e⟩) (Scaled.den ⟨m, e⟩) - 52) (-1074)
      = lastPlace m e := by
    rw [exponentOf_eq_log hnum hden, Scaled.num_div_den, log_toRat hm, lastPlace]
  unfold nearestBits
  simp only
  rw [if_neg hnum.ne', hlast, Nat.shiftLeft_eq, inLastPlaces]
  congr 2
  -- Both quotients are the number in last places.
  refine divRound_congr ?_ (Nat.two_pow_pos _) ?_
  · rw [Nat.shiftLeft_eq]
    exact Nat.mul_pos hden (Nat.two_pow_pos _)
  · simp only [Scaled.num, Scaled.den, Nat.shiftLeft_eq, Nat.one_mul, Nat.mul_assoc,
      ← Nat.pow_add]
    congr 2
    omega

/-- What the arithmetic rounds to is the nearest double, as literals are rounded to it. -/
theorem toNat_pack_round (sign : Sign) {m : Nat} (hm : 0 < m) (e : Int) :
    (UnpackedFloat.pack Format.binary64 (UnpackedFloat.round Format.binary64 sign m e)).toNat
      = sign.toBitVec.toNat * 2 ^ 63 + nearestBits (Scaled.num ⟨m, e⟩) (Scaled.den ⟨m, e⟩) := by
  rw [round_of_lastPlace sign hm, nearestBits_of_lastPlace hm]
  exact toNat_pack_carried (inLastPlaces_le m e) (le_max_right _ _) (le_inLastPlaces hm e)

end Binary64

end PolyCalc
