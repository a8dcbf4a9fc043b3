import PolyCalc.Proofs.Binary64.Absorption
import PolyCalc.Proofs.Binary64.Carry

/-!
# Which Numbers Are Too Large

A number is rounded to infinity from half a last place beyond the greatest finite double on.
This is the same bound wherever a number is rounded: a written number becomes an infinity
from there, and so does a sum of two doubles, of which the exact value counts and not the
two summands. Only the absence of a number comes about in another way, from an infinity.

Nothing that is added to an infinity or to what is not a number makes it finite again. So a
sum of many is finite exactly if each step of it stays in range, where a step adds to the
rounded sum of the steps before.

## Main definitions

* `overflowBound`: The least number that is too large.
* `significand`: A quotient in units of a last place.
* `StaysInRange`: Summands that are added without leaving the range.

## Theorems

* `nearestBits_lt_iff`: Quotients that are too large round to infinity, and no others do.
* `isFinite_unpack_iff`, `isNaN_unpack_of_le`: The words of finite doubles and of no numbers.
* `Decimal.isFinite_nearest_iff`, `Decimal.isNaN_nearest`: The nearest double of a decimal.
* `isFinite_add_iff`: A sum of two is finite if the exact sum is not too large.
* `isFinite_foldl_add_iff`: A sum of many is finite if it stays in range.
-/

namespace PolyCalc

namespace Binary64

open Float.Model (UnpackedFloat Format)
open Float.Model.UnpackedFloat

/-- The least number that is too large for a double: half a last place more than the greatest
    finite one, since the half is rounded up. -/
def overflowBound : ℚ := (2 ^ 54 - 1) * 2 ^ (970 : ℤ)

theorem zpow_lt_overflowBound : (2 : ℚ) ^ (1023 : ℤ) < overflowBound := by
  have hsplit : (1023 : ℤ) = 53 + 970 := by decide
  rw [overflowBound, hsplit, zpow_add₀ two_ne_zero]
  exact mul_lt_mul_of_pos_right (by norm_num) (zpow_pos two_pos _)

theorem overflowBound_lt_zpow : overflowBound < (2 : ℚ) ^ (1024 : ℤ) := by
  have hsplit : (1024 : ℤ) = 54 + 970 := by decide
  rw [overflowBound, hsplit, zpow_add₀ two_ne_zero]
  exact mul_lt_mul_of_pos_right (by norm_num) (zpow_pos two_pos _)

theorem one_lt_overflowBound : 1 < overflowBound :=
  (one_le_zpow₀ one_le_two (by decide)).trans_lt zpow_lt_overflowBound

theorem overflowBound_pos : 0 < overflowBound := one_pos.trans one_lt_overflowBound

/-- The bound in places of the last binade. -/
theorem overflowBound_eq : overflowBound = (2 ^ 53 - 1 / 2) * 2 ^ (971 : ℤ) := by
  have hsplit : (971 : ℤ) = 1 + 970 := by decide
  rw [overflowBound, hsplit, zpow_add₀ two_ne_zero, ← mul_assoc]
  congr 1
  norm_num

/-! ## Quotients -/

/-- The significand of a quotient in units of `2 ^ t`, as it is rounded. -/
def significand (num den : Nat) (t : ℤ) : Nat := divRound (num <<< (-t).toNat) (den <<< t.toNat)

section Significands

variable {num den : Nat} {t : ℤ}

/-- A significand is less than an even number if the quotient lies more than half a unit
    below it. -/
theorem significand_lt_iff (hden : 0 < den) {n : Nat} (hn : n % 2 = 0) :
    significand num den t < n ↔ (num / den : ℚ) < (n - 1 / 2) * 2 ^ t := by
  have hd : (0 : ℚ) < den := Nat.cast_pos.2 hden
  have hp : (0 : ℚ) < 2 ^ (-t).toNat := pow_pos two_pos _
  have hplaces : 0 < den <<< t.toNat := by
    rw [Nat.shiftLeft_eq]
    exact Nat.mul_pos hden (Nat.two_pow_pos _)
  rw [significand, divRound_lt_iff hplaces hn, ← pow_toNat_div_pow_toNat two_ne_zero t,
    ← mul_div_assoc, div_lt_div_iff₀ hd hp, Nat.shiftLeft_eq, Nat.shiftLeft_eq,
    ← Nat.cast_lt (α := ℚ)]
  push_cast
  constructor
  · intro h
    linarith
  · intro h
    linarith

/-- What has up to 53 places before the point is rounded to 53 places, or just beyond. -/
theorem significand_lt_of_lt (hden : 0 < den) (h : (num / den : ℚ) < 2 ^ (53 + t)) :
    significand num den t < 2 ^ 53 + 2 := by
  refine (significand_lt_iff hden (by decide)).2 (h.trans ?_)
  rw [zpow_add₀ two_ne_zero]
  exact mul_lt_mul_of_pos_right (by norm_num) (zpow_pos two_pos t)

/-- What has at least 53 places before the point keeps them. -/
theorem le_significand_of_le (hden : 0 < den) (h : (2 : ℚ) ^ (52 + t) ≤ num / den) :
    2 ^ 52 ≤ significand num den t := by
  rw [← not_lt, significand_lt_iff hden (by decide), not_lt]
  refine le_trans ?_ h
  rw [zpow_add₀ two_ne_zero]
  exact mul_le_mul_of_nonneg_right (by norm_num) (zpow_pos two_pos t).le

/-- A unit that the quotient reaches counts at least once. -/
theorem significand_pos (hden : 0 < den) (h : (2 : ℚ) ^ t ≤ num / den) :
    0 < significand num den t := by
  have hd : (0 : ℚ) < den := Nat.cast_pos.2 hden
  have hp : (0 : ℚ) < 2 ^ (-t).toNat := pow_pos two_pos _
  have hplaces : 0 < den <<< t.toNat := by
    rw [Nat.shiftLeft_eq]
    exact Nat.mul_pos hden (Nat.two_pow_pos _)
  have hle : den <<< t.toNat ≤ num <<< (-t).toNat := by
    rw [← pow_toNat_div_pow_toNat two_ne_zero t, div_le_div_iff₀ hp hd] at h
    rw [Nat.shiftLeft_eq, Nat.shiftLeft_eq, Nat.mul_comm den]
    exact_mod_cast h
  exact (Nat.div_pos hle hplaces).trans_le (div_le_divRound _ _)

/-- The bits of the nearest double, by the last place and the significand there. -/
theorem nearestBits_eq_significand (hnum : 0 < num) (hden : 0 < den)
    (ht : t = max (Int.log 2 (num / den : ℚ) - 52) (-1074)) :
    nearestBits num den
      = min ((t + 1074).toNat * 2 ^ 52 + significand num den t) infinityBits := by
  unfold nearestBits
  simp only
  rw [if_neg hnum.ne', exponentOf_eq_log hnum hden, ← ht, significand, Nat.shiftLeft_eq _ 52]

/-- Whether a quotient rounds to infinity. -/
theorem nearestBits_lt_iff_significand (hnum : 0 < num) (hden : 0 < den)
    (ht : t = max (Int.log 2 (num / den : ℚ) - 52) (-1074)) :
    nearestBits num den < infinityBits
      ↔ (t + 1074).toNat * 2 ^ 52 + significand num den t < 2047 * 2 ^ 52 := by
  rw [nearestBits_eq_significand hnum hden ht, min_lt_iff, or_iff_left (lt_irrefl _)]
  rfl

end Significands

/-- A quotient rounds to infinity exactly if it is too large. -/
theorem nearestBits_lt_iff {num den : Nat} (hden : 0 < den) :
    nearestBits num den < infinityBits ↔ (num / den : ℚ) < overflowBound := by
  rcases Nat.eq_zero_or_pos num with rfl | hnum
  · have hzero : nearestBits 0 den = 0 := rfl
    rw [hzero, Nat.cast_zero, zero_div]
    exact iff_of_true (by decide) overflowBound_pos
  have hq : (0 : ℚ) < num / den := div_pos (Nat.cast_pos.2 hnum) (Nat.cast_pos.2 hden)
  obtain ⟨l, hl⟩ : ∃ l, l = Int.log 2 (num / den : ℚ) := ⟨_, rfl⟩
  obtain ⟨t, ht⟩ : ∃ t, t = max (l - 52) (-1074) := ⟨_, rfl⟩
  have hlow : (2 : ℚ) ^ l ≤ num / den :=
    (Int.zpow_le_iff_le_log (b := 2) (by decide) hq).2 hl.le
  have hhigh : (num / den : ℚ) < 2 ^ (l + 1) :=
    (Int.lt_zpow_iff_log_lt (b := 2) (by decide) hq).2 (by omega)
  rw [nearestBits_lt_iff_significand hnum hden (hl ▸ ht)]
  rcases lt_trichotomy l 1023 with hlt | hlast | hgt
  · -- Below the last binade there is room for any significand.
    have hsmall : (num / den : ℚ) < 2 ^ (1023 : ℤ) :=
      hhigh.trans_le (zpow_le_zpow_right₀ one_le_two (by omega))
    have hshort := significand_lt_of_lt hden
      (hhigh.trans_le (zpow_le_zpow_right₀ one_le_two (by omega : l + 1 ≤ 53 + t)))
    exact iff_of_true (by omega) (hsmall.trans zpow_lt_overflowBound)
  · -- In the last binade a carry leads out of the range.
    have hplace : t = 971 := by omega
    have hcarry : significand num den t < 2 ^ 53 ↔ (num / den : ℚ) < overflowBound := by
      rw [significand_lt_iff hden (by decide), overflowBound_eq, hplace]
      norm_num
    rw [← hcarry]
    omega
  · -- Above it the least significand is too much.
    have hlarge : (2 : ℚ) ^ (1024 : ℤ) ≤ num / den :=
      (zpow_le_zpow_right₀ one_le_two (by omega)).trans hlow
    have hlong := le_significand_of_le hden
      ((zpow_le_zpow_right₀ one_le_two (by omega : 52 + t ≤ l)).trans hlow)
    exact iff_of_false (by omega) (not_lt.2 (overflowBound_lt_zpow.le.trans hlarge))

theorem nearestBits_le (num den : Nat) : nearestBits num den ≤ infinityBits := by
  unfold nearestBits
  simp only
  split
  · exact Nat.zero_le _
  · exact Nat.min_le_right _ _

theorem Decimal.nearestBits_le (d : Decimal) : d.nearestBits ≤ infinityBits := by
  unfold Decimal.nearestBits
  split
  · exact Nat.zero_le _
  · split
    · exact le_rfl
    · split
      · exact Nat.zero_le _
      · exact Binary64.nearestBits_le _ _

/-- A digit with 400 zeros behind it is more than any double. -/
theorem Decimal.overflowBound_le_toRat {d : Decimal} (hdigits : d.digits ≠ 0)
    (h : 400 ≤ d.exponent) : overflowBound ≤ d.toRat :=
  have hten : (0 : ℚ) ≤ 10 ^ d.exponent := zpow_nonneg (by norm_num) _
  have hone : (1 : ℚ) ≤ d.digits := Nat.one_le_cast.2 (Nat.pos_of_ne_zero hdigits)
  calc overflowBound
      ≤ 2 ^ (1024 : ℤ) := overflowBound_lt_zpow.le
    _ ≤ 2 ^ (3 * 400 : ℤ) := zpow_le_zpow_right₀ one_le_two (by decide)
    _ = 8 ^ (400 : ℤ) := by
        rw [zpow_mul]
        norm_num
    _ ≤ 10 ^ (400 : ℤ) := zpow_le_zpow_left₀ (by decide) (by norm_num) (by norm_num)
    _ ≤ 10 ^ d.exponent := zpow_le_zpow_right₀ (by norm_num) h
    _ ≤ d.toRat := le_mul_of_one_le_left hten hone

/-- With more places behind the point than digits there is nothing before the point. -/
theorem Decimal.toRat_lt_one {d : Decimal} (h : (d.digits.log2 : ℤ) + d.exponent < -400) :
    d.toRat < 1 :=
  have hten : (0 : ℚ) < 10 ^ d.exponent := zpow_pos (by norm_num) _
  have hdigits : (d.digits : ℚ) < 10 ^ (d.digits.log2 + 1) := by
    have hlt : d.digits < 10 ^ (d.digits.log2 + 1) :=
      Nat.lt_log2_self.trans_le (Nat.pow_le_pow_left (by decide) _)
    exact_mod_cast hlt
  calc d.toRat
      < 10 ^ (d.digits.log2 + 1) * 10 ^ d.exponent := mul_lt_mul_of_pos_right hdigits hten
    _ = 10 ^ (((d.digits.log2 + 1 : ℕ) : ℤ) + d.exponent) := by
        rw [zpow_add₀ (by norm_num), zpow_natCast]
    _ ≤ 1 := zpow_le_one_of_nonpos₀ (by norm_num) (by omega)

/-- The bounds of the reader lie on the right sides of the range. -/
theorem Decimal.nearestBits_lt_iff (d : Decimal) :
    d.nearestBits < infinityBits ↔ d.toRat < overflowBound := by
  unfold Decimal.nearestBits
  split
  · rename_i hzero
    rw [Decimal.toRat, hzero, Nat.cast_zero, zero_mul]
    exact iff_of_true (by decide) overflowBound_pos
  rename_i hdigits
  split
  · rename_i hlarge
    exact iff_of_false (lt_irrefl _) (not_lt.2 (overflowBound_le_toRat hdigits hlarge))
  split
  · rename_i hsmall
    exact iff_of_true (by decide) ((toRat_lt_one hsmall).trans one_lt_overflowBound)
  · rw [Binary64.nearestBits_lt_iff d.den_pos, d.num_div_den]

/-! ## Words -/

section Words

variable {b : BitVec Format.binary64.numBits}

/-- Without its sign a word is finite, infinite or no number as it lies below the bits of
    infinity, at them or above. -/
theorem unpack_kinds :
    (UnpackedFloat.unpack Format.binary64 b).isFinite = true ∧ b.toNat % 2 ^ 63 < infinityBits
      ∨ (∃ sign, UnpackedFloat.unpack Format.binary64 b = .infinity sign)
        ∧ b.toNat % 2 ^ 63 = infinityBits
      ∨ UnpackedFloat.unpack Format.binary64 b = .notANumber
        ∧ infinityBits < b.toNat % 2 ^ 63 := by
  have hexponent := toNat_unpackExponent b
  have hmantissa := toNat_unpackMantissa b
  have hinfinity : infinityBits = 2047 * 2 ^ 52 := rfl
  rw [hinfinity]
  by_cases hones : unpackExponent b = -1#_
  · have htop : (unpackExponent b).toNat = 2047 := congrArg BitVec.toNat hones
    by_cases hnil : unpackMantissa b = 0#_
    · have hzero : (unpackMantissa b).toNat = 0 := congrArg BitVec.toNat hnil
      exact .inr (.inl ⟨⟨_, unpack_infinity hones hnil⟩, by omega⟩)
    · have hpos : (unpackMantissa b).toNat ≠ 0 := fun h => hnil (BitVec.eq_of_toNat_eq h)
      exact .inr (.inr ⟨unpack_notANumber hones hnil, by omega⟩)
  · have htop : (unpackExponent b).toNat ≠ 2047 := fun h => hones (BitVec.eq_of_toNat_eq h)
    refine .inl ⟨?_, by omega⟩
    by_cases hzero : unpackExponent b = 0#_
    · by_cases hnil : unpackMantissa b = 0#_
      · rw [unpack_zero hones hzero hnil]
        rfl
      · have hpos : (unpackMantissa b).toNat ≠ 0 := fun h => hnil (BitVec.eq_of_toNat_eq h)
        rw [unpack_subnormal hones hzero (Nat.pos_of_ne_zero hpos)]
        rfl
    · rw [unpack_normal hones hzero]
      rfl

/-- The words of finite doubles lie below those of infinity, but for the sign. -/
theorem isFinite_unpack_iff :
    (UnpackedFloat.unpack Format.binary64 b).isFinite = true
      ↔ b.toNat % 2 ^ 63 < infinityBits := by
  rcases unpack_kinds (b := b) with ⟨hfinite, hlt⟩ | ⟨⟨sign, hinfinity⟩, heq⟩ | ⟨hnone, hgt⟩
  · exact iff_of_true hfinite hlt
  · rw [hinfinity, heq]
    exact iff_of_false Bool.false_ne_true (lt_irrefl _)
  · rw [hnone]
    exact iff_of_false Bool.false_ne_true hgt.not_gt

/-- The words that are no numbers lie above them. -/
theorem isNaN_unpack_of_le (h : b.toNat % 2 ^ 63 ≤ infinityBits) :
    (UnpackedFloat.unpack Format.binary64 b).isNaN = false := by
  rcases unpack_kinds (b := b) with ⟨hfinite, -⟩ | ⟨⟨sign, hinfinity⟩, -⟩ | ⟨-, hgt⟩
  · cases hparts : UnpackedFloat.unpack Format.binary64 b with
    | notANumber =>
        rw [hparts] at hfinite
        cases hfinite
    | infinity sign => rfl
    | zero sign => rfl
    | finite sign m e hpos => rfl
  · rw [hinfinity]
    rfl
  · exact absurd h hgt.not_ge

/-- A word that was taken apart is put together to the same parts. -/
theorem unpack_pack_unpack (b : BitVec Format.binary64.numBits) :
    (Float.Model.pack (UnpackedFloat.unpack Format.binary64 b)).unpack
      = UnpackedFloat.unpack Format.binary64 b := by
  cases hparts : UnpackedFloat.unpack Format.binary64 b with
  | notANumber => rfl
  | infinity sign => exact unpack_pack_infinity sign
  | zero sign => exact unpack_pack_zero sign
  | finite sign m e hpos =>
      exact unpack_pack_finite hpos (isCanonical_and_toNat_of_unpack hparts).1

end Words

/-! ## Written numbers -/

section Magnitudes

variable {bits : Nat}

theorem unpack_ofMagnitude (bits : Nat) : (ofMagnitude bits).toModel.unpack
    = UnpackedFloat.unpack Format.binary64 (UInt64.ofNat bits).toBitVec :=
  unpack_pack_unpack _

/-- Up to infinity the bits fit into a word without its sign. -/
theorem toNat_word_mod (h : bits ≤ infinityBits) :
    (UInt64.ofNat bits).toBitVec.toNat % 2 ^ 63 = bits := by
  have hinfinity : infinityBits = 2047 * 2 ^ 52 := rfl
  rw [hinfinity] at h
  rw [UInt64.toNat_toBitVec, UInt64.toNat_ofNat']
  omega

theorem isFinite_ofMagnitude_iff (h : bits ≤ infinityBits) :
    (ofMagnitude bits).isFinite = true ↔ bits < infinityBits := by
  have hfinite : (ofMagnitude bits).isFinite = (ofMagnitude bits).toModel.unpack.isFinite := rfl
  rw [hfinite, unpack_ofMagnitude, isFinite_unpack_iff, toNat_word_mod h]

theorem isNaN_ofMagnitude (h : bits ≤ infinityBits) : (ofMagnitude bits).isNaN = false := by
  have hnan : (ofMagnitude bits).isNaN = (ofMagnitude bits).toModel.unpack.isNaN := rfl
  rw [hnan, unpack_ofMagnitude]
  exact isNaN_unpack_of_le ((toNat_word_mod h).trans_le h)

end Magnitudes

/-- A decimal rounds to a finite double exactly if it is not too large. -/
theorem Decimal.isFinite_nearest_iff (d : Decimal) :
    d.nearest.isFinite = true ↔ d.toRat < overflowBound := by
  rw [Decimal.nearest, isFinite_ofMagnitude_iff d.nearestBits_le, d.nearestBits_lt_iff]

theorem Decimal.isNaN_nearest (d : Decimal) : d.nearest.isNaN = false :=
  isNaN_ofMagnitude d.nearestBits_le

/-! ## Sums -/

section Sums

variable {x y : Float} {a b : ℚ}

/-- The finite doubles are those that are numbers. -/
theorem isFinite_iff_toRat? : x.isFinite = true ↔ ∃ v, toRat? x = some v := by
  have hfinite : x.isFinite = x.toModel.unpack.isFinite := rfl
  rw [hfinite]
  unfold toRat?
  cases x.toModel.unpack with
  | notANumber => exact iff_of_false Bool.false_ne_true (by rintro ⟨v, hv⟩; cases hv)
  | infinity sign => exact iff_of_false Bool.false_ne_true (by rintro ⟨v, hv⟩; cases hv)
  | zero sign => exact iff_of_true rfl ⟨_, rfl⟩
  | finite sign m e hpos =>
      cases sign with
      | positive => exact iff_of_true rfl ⟨_, rfl⟩
      | negative => exact iff_of_true rfl ⟨_, rfl⟩

/-- No number that a double is is too large. -/
theorem abs_lt_overflowBound (hx : toRat? x = some a) : |a| < overflowBound := by
  rcases unpack_of_toRat? hx with ⟨rfl, -⟩ | ⟨-, m, e, -, hcanonical, hnumber, -⟩
  · rw [abs_zero]
    exact overflowBound_pos
  · rw [← hnumber, ← Scaled.num_div_den, ← nearestBits_lt_iff (Scaled.den_pos _),
      nearestBits_of_eq_toRat (Scaled.den_pos _) hcanonical (Scaled.num_div_den _)]
    exact hcanonical.bits_lt

/-- Rounding leads to infinity exactly for what is too large. -/
theorem isFinite_pack_round_iff (sign : Sign) {m : Nat} (hm : 0 < m) (e : Int) :
    (Float.Model.pack (UnpackedFloat.round Format.binary64 sign m e)).unpack.isFinite = true
      ↔ Scaled.toRat ⟨m, e⟩ < overflowBound := by
  have hunpack : (Float.Model.pack (UnpackedFloat.round Format.binary64 sign m e)).unpack
      = UnpackedFloat.unpack Format.binary64
        (UnpackedFloat.pack Format.binary64 (UnpackedFloat.round Format.binary64 sign m e)) := rfl
  have hle := nearestBits_le (Scaled.num ⟨m, e⟩) (Scaled.den ⟨m, e⟩)
  have hinfinity : infinityBits = 2047 * 2 ^ 52 := rfl
  have hmod : (sign.toBitVec.toNat * 2 ^ 63 + nearestBits (Scaled.num ⟨m, e⟩) (Scaled.den ⟨m, e⟩))
      % 2 ^ 63 = nearestBits (Scaled.num ⟨m, e⟩) (Scaled.den ⟨m, e⟩) := by
    omega
  rw [hunpack, isFinite_unpack_iff, toNat_pack_round sign hm, hmod,
    nearestBits_lt_iff (Scaled.den_pos _), Scaled.num_div_den]

theorem isFinite_add_of_isZero (hx : Coefficient.isZero x = true) (hy : toRat? y = some b) :
    (x + y).isFinite = true := by
  by_cases hb : b = 0
  · exact isFinite_of_isZero (isZero_add hx ((isZero_iff_of_toRat? hy).2 hb))
  · rw [add_eq_of_isZero hx (isZero_eq_false_of_toRat? hy hb)]
    exact isFinite_iff_toRat?.2 ⟨b, hy⟩

/-- A sum of two numbers is finite exactly if the exact sum is not too large. -/
theorem isFinite_add_iff (hx : toRat? x = some a) (hy : toRat? y = some b) :
    (x + y).isFinite = true ↔ |a + b| < overflowBound := by
  -- A zero is not aligned to the other summand, which stays as it is.
  by_cases ha : a = 0
  · have hfinite := isFinite_add_of_isZero ((isZero_iff_of_toRat? hx).2 ha) hy
    rw [ha, zero_add]
    exact iff_of_true hfinite (abs_lt_overflowBound hy)
  by_cases hb : b = 0
  · have hfinite := isFinite_add_of_isZero ((isZero_iff_of_toRat? hy).2 hb) hx
    rw [hb, add_zero, add_commutes]
    exact iff_of_true hfinite (abs_lt_overflowBound hx)
  rcases exists_toModel_add hx hy ha hb with ⟨i, e, hnumber, hmodel⟩
  rw [← hnumber]
  by_cases hzero : i = 0
  · subst hzero
    rw [Int.cast_zero, zero_mul, abs_zero]
    exact iff_of_true (isFinite_of_isZero (isZero_pack_normalize_zero hmodel)) overflowBound_pos
  · have hfinite : (x + y).isFinite = (x + y).toModel.unpack.isFinite := rfl
    have habs : |(i : ℚ) * 2 ^ e| = Scaled.toRat ⟨i.natAbs, e⟩ := by
      rw [abs_mul, abs_of_pos (zpow_pos two_pos e : (0 : ℚ) < 2 ^ e), Scaled.toRat,
        Nat.cast_natAbs, Int.cast_abs]
    rw [hfinite, hmodel, normalize_eq_round hzero,
      isFinite_pack_round_iff _ (Int.natAbs_pos.2 hzero), habs]

theorem unpacked_add_infinity (spec : Format) (s : Sign) (z : UnpackedFloat) :
    UnpackedFloat.add spec (.infinity s) z = .infinity s
      ∨ UnpackedFloat.add spec (.infinity s) z = .notANumber := by
  cases z with
  | notANumber => exact .inr rfl
  | zero t => exact .inl rfl
  | finite t m e hpos => exact .inl rfl
  | infinity t =>
      -- Opposite infinities have no sum.
      cases s with
      | positive =>
          cases t with
          | positive => exact .inl rfl
          | negative => exact .inr rfl
      | negative =>
          cases t with
          | positive => exact .inr rfl
          | negative => exact .inl rfl

/-- What is added to an infinity or to no number does not become finite. -/
theorem isFinite_left_of_add (h : (x + y).isFinite = true) : x.isFinite = true := by
  have hfinite (z : Float) : z.isFinite = z.toModel.unpack.isFinite := rfl
  rw [hfinite, toModel_add] at h
  rw [hfinite]
  cases hparts : x.toModel.unpack with
  | zero sign => rfl
  | finite sign m e hpos => rfl
  | notANumber =>
      have hsum : UnpackedFloat.add Format.binary64 .notANumber y.toModel.unpack
          = .notANumber := by
        cases y.toModel.unpack <;> rfl
      rw [hparts, hsum, unpack_pack_notANumber] at h
      cases h
  | infinity s =>
      rw [hparts] at h
      rcases unpacked_add_infinity Format.binary64 s y.toModel.unpack with hsum | hsum
      · rw [hsum, unpack_pack_infinity] at h
        cases h
      · rw [hsum, unpack_pack_notANumber] at h
        cases h

theorem isFinite_of_foldl_add {cs : List Float} {sum : Float}
    (h : (cs.foldl (· + ·) sum).isFinite = true) : sum.isFinite = true := by
  induction cs generalizing sum with
  | nil => exact h
  | cons c cs ih => exact isFinite_left_of_add (ih h)

end Sums

/-- Summands that are added from left to right without leaving the range: each of them is a
    number, and so is the sum before it, and the exact sum of the two is not too large. -/
def StaysInRange : Float → List Float → Prop
  | _, [] => True
  | sum, c :: cs =>
    (∃ a b, toRat? sum = some a ∧ toRat? c = some b ∧ |a + b| < overflowBound)
      ∧ StaysInRange (sum + c) cs

/-- A sum of many is finite exactly if it stays in range. -/
theorem isFinite_foldl_add_iff {cs : List Float} {sum : Float} (hsum : sum.isFinite = true) :
    (cs.foldl (· + ·) sum).isFinite = true ↔ StaysInRange sum cs := by
  induction cs generalizing sum with
  | nil => exact iff_of_true hsum trivial
  | cons c cs ih =>
      constructor
      · intro h
        have hstep : (sum + c).isFinite = true := isFinite_of_foldl_add h
        have hc : c.isFinite = true := by
          rw [add_commutes] at hstep
          exact isFinite_left_of_add hstep
        rcases isFinite_iff_toRat?.1 hsum with ⟨a, ha⟩
        rcases isFinite_iff_toRat?.1 hc with ⟨b, hb⟩
        exact ⟨⟨a, b, ha, hb, (isFinite_add_iff ha hb).1 hstep⟩, (ih hstep).1 h⟩
      · rintro ⟨⟨a, b, ha, hb, hlt⟩, hrest⟩
        exact (ih ((isFinite_add_iff ha hb).2 hlt)).2 hrest

end Binary64

end PolyCalc
