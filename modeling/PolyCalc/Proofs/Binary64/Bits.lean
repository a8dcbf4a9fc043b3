import Mathlib.Algebra.Ring.Nat
import PolyCalc.Binary64.Rounding

/-!
# The Bits of a Double

A double is a word of 64 bits, and its operations take the word apart, compute
with sign, significand and exponent, and put a word together again. What comes
out of the first part and goes into the last can be compared with the original
word, and the comparison is made on natural numbers: the three fields of a word
are its digits in a mixed radix, so `omega` can put them together.

A finite double that is not zero has its significand and its exponent in
canonical form, and in this form they are determined by the number. The bits of
its magnitude are then given by one formula for normal and subnormal numbers
alike, the formula by which the nearest double is computed.

## Main definitions

* `Scaled.IsCanonical`: The significands and exponents that finite doubles have.
* `Scaled.bits`: The bits of the positive double with them.

## Theorems

* `packComponents_fields`: A word is put together from its own fields.
* `unpack_infinity`, `unpack_notANumber`, `unpack_zero`, `unpack_subnormal`,
  `unpack_normal`: The five kinds of words.
* `toNat_pack_finite`: The bits of canonical parts.
* `unpack_of_toNat`: Canonical parts come out of their own bits.
* `isCanonical_and_toNat_of_unpack`: The parts of a finite double are canonical.
* `pack_unpack_of_valid`: A double taken apart and put together again is the same.
-/

namespace PolyCalc

namespace Binary64

open Float.Model (UnpackedFloat Format)
open Float.Model.UnpackedFloat

/-! ## Fields -/

theorem toNat_unpackMantissa (b : BitVec Format.binary64.numBits) :
    (unpackMantissa b).toNat = b.toNat % 2 ^ 52 := by
  unfold unpackMantissa
  rw [BitVec.toNat_cast, BitVec.extractLsb_toNat, Nat.shiftRight_zero]
  rfl

theorem toNat_unpackExponent (b : BitVec Format.binary64.numBits) :
    (unpackExponent b).toNat = b.toNat / 2 ^ 52 % 2 ^ 11 := by
  unfold unpackExponent
  rw [BitVec.toNat_cast, BitVec.extractLsb_toNat, Nat.shiftRight_eq_div_pow]
  rfl

theorem toNat_unpackSign (b : BitVec Format.binary64.numBits) :
    (unpackSign b).toNat = b.toNat / 2 ^ 63 % 2 := by
  unfold unpackSign
  rw [BitVec.toNat_cast, BitVec.extractLsb_toNat, Nat.shiftRight_eq_div_pow]
  rfl

theorem toNat_packComponents (sign : Sign) (e : BitVec 11) (m : BitVec 52) :
    (packComponents Format.binary64 sign e m).toNat
      = sign.toBitVec.toNat * 2 ^ 63 + e.toNat * 2 ^ 52 + m.toNat := by
  have hfields : (packComponents Format.binary64 sign e m).toNat
      = (sign.toBitVec.toNat <<< 11 ||| e.toNat) <<< 52 ||| m.toNat := by
    unfold packComponents
    rw [BitVec.toNat_append, BitVec.toNat_append]
  -- The fields do not overlap, so joining them is adding their multiples.
  rw [hfields, ← Nat.shiftLeft_add_eq_or_of_lt e.isLt, ← Nat.shiftLeft_add_eq_or_of_lt m.isLt,
    Nat.shiftLeft_eq, Nat.shiftLeft_eq]
  omega

theorem ofBitVec_toBitVec (sign : Sign) : Sign.ofBitVec sign.toBitVec = sign := by
  cases sign <;> rfl

theorem toBitVec_ofBitVec (v : BitVec 1) : (Sign.ofBitVec v).toBitVec = v := by
  revert v
  decide

/-- A word is put together from its own fields. -/
theorem packComponents_fields (b : BitVec Format.binary64.numBits) :
    packComponents Format.binary64 (Sign.ofBitVec (unpackSign b)) (unpackExponent b)
      (unpackMantissa b) = b := by
  refine BitVec.eq_of_toNat_eq ?_
  have hlt : b.toNat < 2 ^ 64 := b.isLt
  rw [toNat_packComponents, toBitVec_ofBitVec, toNat_unpackSign, toNat_unpackExponent,
    toNat_unpackMantissa]
  omega

/-! ## Canonical form -/

/-- The significands and exponents of finite doubles: 53 bits, of which the first
    is set unless the exponent is the least one. -/
structure Scaled.IsCanonical (x : Scaled) : Prop where
  pos : 0 < x.significand
  lt : x.significand < 2 ^ 53
  least : -1074 ≤ x.exponent
  greatest : x.exponent ≤ 971
  normal : x.exponent = -1074 ∨ 2 ^ 52 ≤ x.significand

/-- The bits of the positive double with a given significand and exponent. -/
def Scaled.bits (x : Scaled) : Nat := ((x.exponent + 1074).toNat <<< 52) + x.significand

theorem isCanonical_mk {m : Nat} {e : Int} : Scaled.IsCanonical ⟨m, e⟩
    ↔ 0 < m ∧ m < 2 ^ 53 ∧ -1074 ≤ e ∧ e ≤ 971 ∧ (e = -1074 ∨ 2 ^ 52 ≤ m) := by
  constructor
  · rintro ⟨hpos, hlt, hleast, hgreatest, hnormal⟩
    exact ⟨hpos, hlt, hleast, hgreatest, hnormal⟩
  · rintro ⟨hpos, hlt, hleast, hgreatest, hnormal⟩
    exact ⟨hpos, hlt, hleast, hgreatest, hnormal⟩

theorem bits_mk (m : Nat) (e : Int) :
    Scaled.bits ⟨m, e⟩ = (e + 1074).toNat * 2 ^ 52 + m :=
  congrArg (· + m) (Nat.shiftLeft_eq _ _)

/-- The bits of the number that canonical parts are put together to. -/
theorem toNat_pack_finite {sign : Sign} {m : Nat} {e : Int} (hpos : 0 < m)
    (h : Scaled.IsCanonical ⟨m, e⟩) :
    (UnpackedFloat.pack Format.binary64 (.finite sign m e hpos)).toNat
      = sign.toBitVec.toNat * 2 ^ 63 + Scaled.bits ⟨m, e⟩ := by
  rcases isCanonical_mk.1 h with ⟨-, hlt, hleast, hgreatest, hnormal⟩
  -- The exponent field holds the exponent counted from below the least one.
  have hbiased : (e + (Format.binary64.exponentBias : Nat) + (52 : Nat)).toNat
      = (e + 1075).toNat := by
    have hbias : Format.binary64.exponentBias = 1023 := rfl
    omega
  unfold UnpackedFloat.pack
  dsimp only
  rw [hbiased]
  rw [if_neg (by omega), bits_mk]
  have hsize : Format.binary64.mantissaBits = 53 := rfl
  -- A set leading bit makes the number normal; it is left out of the fraction.
  by_cases hm : 2 ^ 52 ≤ m
  · have hlog : m.log2 + 1 = Format.binary64.mantissaBits := by
      have hlow := (Nat.le_log2 (Nat.ne_of_gt hpos)).2 hm
      have hhigh := (Nat.log2_lt (Nat.ne_of_gt hpos)).2 hlt
      omega
    rw [if_pos hlog, toNat_packComponents, BitVec.toNat_ofNat, BitVec.toNat_ofNat]
    omega
  · have hlog : ¬m.log2 + 1 = Format.binary64.mantissaBits := by
      have hhigh := (Nat.log2_lt (Nat.ne_of_gt hpos)).2 (Nat.lt_of_not_le hm)
      omega
    rw [if_neg hlog, toNat_packComponents, BitVec.toNat_ofNat, BitVec.toNat_ofNat]
    omega

/-! ## Taking apart

A word has one of five kinds, told apart by its exponent field and, at both ends
of the exponents, by its fraction.
-/

section Kinds

variable {b : BitVec Format.binary64.numBits}

theorem unpack_infinity (hones : unpackExponent b = -1#_) (hnil : unpackMantissa b = 0#_) :
    UnpackedFloat.unpack Format.binary64 b = .infinity (Sign.ofBitVec (unpackSign b)) := by
  unfold UnpackedFloat.unpack
  dsimp only
  rw [if_pos hones, if_pos hnil]

theorem unpack_notANumber (hones : unpackExponent b = -1#_) (hne : unpackMantissa b ≠ 0#_) :
    UnpackedFloat.unpack Format.binary64 b = .notANumber := by
  unfold UnpackedFloat.unpack
  dsimp only
  rw [if_pos hones, if_neg hne]

theorem unpack_zero (hones : unpackExponent b ≠ -1#_) (hzero : unpackExponent b = 0#_)
    (hnil : unpackMantissa b = 0#_) :
    UnpackedFloat.unpack Format.binary64 b = .zero (Sign.ofBitVec (unpackSign b)) := by
  unfold UnpackedFloat.unpack
  dsimp only
  rw [if_neg hones, if_pos hzero, dif_pos hnil]

theorem finite_congr {s s' : Sign} {m m' : Nat} {e e' : Int} {h : 0 < m} {h' : 0 < m'}
    (hs : s = s') (hm : m = m') (he : e = e') :
    UnpackedFloat.finite s m e h = UnpackedFloat.finite s' m' e' h' := by
  subst hs hm he
  rfl

theorem unpack_subnormal (hones : unpackExponent b ≠ -1#_) (hzero : unpackExponent b = 0#_)
    (hpos : 0 < (unpackMantissa b).toNat) :
    UnpackedFloat.unpack Format.binary64 b
      = .finite (Sign.ofBitVec (unpackSign b)) (unpackMantissa b).toNat (-1074) hpos := by
  have hne : unpackMantissa b ≠ 0#_ := by
    intro hnil
    rw [hnil, BitVec.toNat_zero] at hpos
    omega
  unfold UnpackedFloat.unpack
  dsimp only
  rw [if_neg hones, if_pos hzero, dif_neg hne]
  refine finite_congr rfl rfl ?_
  rw [hzero]
  rfl

theorem toNat_one_append (v : BitVec 52) : (1#1 ++ v).toNat = 2 ^ 52 + v.toNat := by
  rw [BitVec.toNat_append, ← Nat.shiftLeft_add_eq_or_of_lt v.isLt]
  rfl

theorem unpack_normal (hones : unpackExponent b ≠ -1#_) (hzero : unpackExponent b ≠ 0#_) :
    UnpackedFloat.unpack Format.binary64 b
      = .finite (Sign.ofBitVec (unpackSign b)) (2 ^ 52 + (unpackMantissa b).toNat)
          ((unpackExponent b).toNat - 1075) (by omega) := by
  unfold UnpackedFloat.unpack
  dsimp only
  rw [if_neg hones, if_neg hzero]
  exact finite_congr rfl (toNat_one_append _) rfl

end Kinds

/-- A word with the bits of a canonical number has the parts of that number. -/
theorem unpack_of_toNat {b : BitVec Format.binary64.numBits} {sign : Sign} {m : Nat} {e : Int}
    (hpos : 0 < m) (h : Scaled.IsCanonical ⟨m, e⟩)
    (hb : b.toNat = sign.toBitVec.toNat * 2 ^ 63 + Scaled.bits ⟨m, e⟩) :
    UnpackedFloat.unpack Format.binary64 b = .finite sign m e hpos := by
  rcases isCanonical_mk.1 h with ⟨-, hlt, hleast, hgreatest, hnormal⟩
  rw [bits_mk] at hb
  have hsignBit : sign.toBitVec.toNat < 2 := sign.toBitVec.isLt
  have hexponent := toNat_unpackExponent b
  have hmantissa := toNat_unpackMantissa b
  have hsign : Sign.ofBitVec (unpackSign b) = sign := by
    have hfield : unpackSign b = sign.toBitVec := by
      refine BitVec.eq_of_toNat_eq ?_
      rw [toNat_unpackSign]
      omega
    rw [hfield, ofBitVec_toBitVec]
  -- The greatest exponent leaves the field below all ones.
  have hones : unpackExponent b ≠ -1#_ := by
    intro hones
    have htop : (unpackExponent b).toNat = 2047 := congrArg BitVec.toNat hones
    omega
  -- The leading bit of the significand carries into the exponent field.
  by_cases hm : 2 ^ 52 ≤ m
  · have hzero : unpackExponent b ≠ 0#_ := by
      intro hzero
      have hnil : (unpackExponent b).toNat = 0 := congrArg BitVec.toNat hzero
      omega
    rw [unpack_normal hones hzero]
    exact finite_congr hsign (by omega) (by omega)
  · have hzero : unpackExponent b = 0#_ := by
      refine BitVec.eq_of_toNat_eq ?_
      rw [hexponent, BitVec.toNat_zero]
      omega
    rw [unpack_subnormal hones hzero (by omega)]
    exact finite_congr hsign (by omega) (by omega)

/-! ## Putting together -/

/-- The parts of a word that is a finite number are canonical, and the word has
    their bits. -/
theorem isCanonical_and_toNat_of_unpack {b : BitVec Format.binary64.numBits} {sign : Sign}
    {m : Nat} {e : Int} {hpos : 0 < m}
    (h : UnpackedFloat.unpack Format.binary64 b = .finite sign m e hpos) :
    Scaled.IsCanonical ⟨m, e⟩
      ∧ b.toNat = sign.toBitVec.toNat * 2 ^ 63 + Scaled.bits ⟨m, e⟩ := by
  have hlt : b.toNat < 2 ^ 64 := b.isLt
  have hsign := toNat_unpackSign b
  have hexponent := toNat_unpackExponent b
  have hmantissa := toNat_unpackMantissa b
  rw [bits_mk]
  by_cases hones : unpackExponent b = -1#_
  -- With all bits of the exponent set, the word is no finite number.
  · by_cases hnil : unpackMantissa b = 0#_
    · rw [unpack_infinity hones hnil] at h
      cases h
    · rw [unpack_notANumber hones hnil] at h
      cases h
  · have htop : (unpackExponent b).toNat ≠ 2047 := fun htop => hones (BitVec.eq_of_toNat_eq htop)
    by_cases hzero : unpackExponent b = 0#_
    · have hleast : (unpackExponent b).toNat = 0 := congrArg BitVec.toNat hzero
      by_cases hnil : unpackMantissa b = 0#_
      · rw [unpack_zero hones hzero hnil] at h
        cases h
      · have hne : (unpackMantissa b).toNat ≠ 0 := fun hne => hnil (BitVec.eq_of_toNat_eq hne)
        rw [unpack_subnormal hones hzero (Nat.pos_of_ne_zero hne)] at h
        injection h with hs hm he
        subst hs hm he
        rw [toBitVec_ofBitVec]
        exact ⟨isCanonical_mk.2 (by omega), by omega⟩
    · have hleast : (unpackExponent b).toNat ≠ 0 :=
        fun hleast => hzero (BitVec.eq_of_toNat_eq hleast)
      rw [unpack_normal hones hzero] at h
      injection h with hs hm he
      subst hs hm he
      rw [toBitVec_ofBitVec]
      exact ⟨isCanonical_mk.2 (by omega), by omega⟩

theorem packComponents_eq_of_fields {b : BitVec Format.binary64.numBits} {e : BitVec 11}
    {m : BitVec 52} (he : unpackExponent b = e) (hm : unpackMantissa b = m) :
    packComponents Format.binary64 (Sign.ofBitVec (unpackSign b)) e m = b := by
  subst he hm
  exact packComponents_fields b

/-- A word is put together again from its parts. Only a word that is no number
    could be a different one, and there is a single word of that kind. -/
theorem pack_unpack_of_valid {b : BitVec Format.binary64.numBits}
    (hvalid : Format.binary64.Valid b) :
    UnpackedFloat.pack Format.binary64 (UnpackedFloat.unpack Format.binary64 b) = b := by
  -- Of a finite number the bits are known, and these make up the word.
  have hfinite {sign : Sign} {m : Nat} {e : Int} {hpos : 0 < m}
      (h : UnpackedFloat.unpack Format.binary64 b = .finite sign m e hpos) :
      UnpackedFloat.pack Format.binary64 (UnpackedFloat.unpack Format.binary64 b) = b := by
    rcases isCanonical_and_toNat_of_unpack h with ⟨hcanonical, hbits⟩
    rw [h]
    exact BitVec.eq_of_toNat_eq ((toNat_pack_finite hpos hcanonical).trans hbits.symm)
  by_cases hones : unpackExponent b = -1#_
  · by_cases hnil : unpackMantissa b = 0#_
    · rw [unpack_infinity hones hnil]
      exact packComponents_eq_of_fields hones hnil
    · rw [unpack_notANumber hones hnil]
      exact (hvalid.eq_packedNaN hones hnil).symm
  · by_cases hzero : unpackExponent b = 0#_
    · by_cases hnil : unpackMantissa b = 0#_
      · rw [unpack_zero hones hzero hnil]
        exact packComponents_eq_of_fields hzero hnil
      · have hne : (unpackMantissa b).toNat ≠ 0 := fun hne => hnil (BitVec.eq_of_toNat_eq hne)
        exact hfinite (unpack_subnormal hones hzero (Nat.pos_of_ne_zero hne))
    · exact hfinite (unpack_normal hones hzero)

end Binary64

end PolyCalc
