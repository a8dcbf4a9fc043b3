import PolyCalc.Coefficient
import PolyCalc.Proofs.Binary64.Bits

/-!
# Doubles by Their Parts

A double is determined by its parts, so what an operation does to a double is
told by what it does to the parts. That settles the few facts about doubles that
the text of a polynomial rests on: a number equal to one is the double one, the sign
decides about the order against zero, and the magnitude gives the double back.

## Main definitions

* `HasParts`: A double with a significand, which is a finite one that is not zero.

## Theorems

* `eq_of_unpack_eq`: Doubles with the same parts are equal.
* `isCanonical_of_unpack`: The parts of a finite double are canonical.
* `unpack_neg`, `unpack_abs`: Negation turns the sign, the magnitude drops it.
* `unpack_ofMagnitude_bits`: The formula for the bits.
* `HasParts.abs_eq_self`, `HasParts.neg_abs_eq_self`: A double from its magnitude.
* `eq_one_of_beq_one`: What equals one is one.
* `isZero_iff`: The two zeros.
* `isFinite_iff_hasParts`: The finite doubles that are not zero.
-/

namespace PolyCalc

namespace Binary64

open Float.Model (UnpackedFloat Format)
open Float.Model.UnpackedFloat

theorem pack_unpack (f : Float.Model) : Float.Model.pack f.unpack = f := by
  have hword := pack_unpack_of_valid f.valid
  rcases f with ⟨bits, valid⟩
  rw [Float.Model.pack, Float.Model.mk.injEq]
  exact UInt64.toBitVec_inj.1 hword

theorem eq_of_unpack_eq {x y : Float} (h : x.toModel.unpack = y.toModel.unpack) : x = y := by
  have hmodel : x.toModel = y.toModel := by
    rw [← pack_unpack x.toModel, h, pack_unpack]
  cases x
  cases y
  cases hmodel
  rfl

theorem unpack_pack_zero (sign : Sign) : (Float.Model.pack (.zero sign)).unpack = .zero sign := by
  cases sign <;> rfl

theorem unpack_pack_infinity (sign : Sign) :
    (Float.Model.pack (.infinity sign)).unpack = .infinity sign := by
  cases sign <;> rfl

/-- A double with a significand: it is finite and not zero. -/
def HasParts (x : Float) : Prop :=
  ∃ sign m e hpos, x.toModel.unpack = .finite sign m e hpos

section Parts

variable {x : Float} {sign : Sign} {m : Nat} {e : Int} {hpos : 0 < m}

theorem isCanonical_of_unpack (h : x.toModel.unpack = .finite sign m e hpos) :
    Scaled.IsCanonical ⟨m, e⟩ := (isCanonical_and_toNat_of_unpack h).1

/-- Canonical parts are put together without loss. -/
theorem unpack_pack_finite (hpos : 0 < m) (h : Scaled.IsCanonical ⟨m, e⟩) :
    (Float.Model.pack (.finite sign m e hpos)).unpack = .finite sign m e hpos :=
  unpack_of_toNat hpos h (toNat_pack_finite hpos h)

theorem unpack_neg (h : x.toModel.unpack = .finite sign m e hpos) :
    (-x).toModel.unpack = .finite (-sign) m e hpos := by
  have hneg : (-x).toModel = Float.Model.pack x.toModel.unpack.neg := rfl
  rw [hneg, h]
  exact unpack_pack_finite hpos (isCanonical_of_unpack h)

theorem unpack_abs (h : x.toModel.unpack = .finite sign m e hpos) :
    x.abs.toModel.unpack = .finite .positive m e hpos := by
  have habs : x.abs.toModel = Float.Model.pack x.toModel.unpack.abs := rfl
  rw [habs, h]
  exact unpack_pack_finite hpos (isCanonical_of_unpack h)

/-- The bits of a canonical number are those of the double with its parts. -/
theorem unpack_ofMagnitude_bits (hpos : 0 < m) (h : Scaled.IsCanonical ⟨m, e⟩) :
    (ofMagnitude (Scaled.bits ⟨m, e⟩)).toModel.unpack = .finite .positive m e hpos := by
  rcases isCanonical_mk.1 h with ⟨-, hlt, hleast, hgreatest, hnormal⟩
  -- The bits fit into a word, so making a word of them changes nothing.
  have hword : (UInt64.ofNat (Scaled.bits ⟨m, e⟩)).toBitVec.toNat = Scaled.bits ⟨m, e⟩ := by
    rw [UInt64.toNat_toBitVec, UInt64.toNat_ofNat', bits_mk]
    omega
  have hparts : UnpackedFloat.unpack Format.binary64
      (UInt64.ofNat (Scaled.bits ⟨m, e⟩)).toBitVec = .finite .positive m e hpos := by
    refine unpack_of_toNat hpos h ?_
    rw [hword]
    exact (Nat.zero_add _).symm
  have hmodel : (ofMagnitude (Scaled.bits ⟨m, e⟩)).toModel = Float.Model.pack
      (UnpackedFloat.unpack Format.binary64 (UInt64.ofNat (Scaled.bits ⟨m, e⟩)).toBitVec) := rfl
  rw [hmodel, hparts]
  exact unpack_pack_finite hpos h

theorem zero_lt_iff (h : x.toModel.unpack = .finite sign m e hpos) :
    0 < x ↔ sign = .positive := by
  have hzero : (0 : Float).toModel.unpack = .zero .positive := rfl
  have horder : 0 < x
      ↔ ((0 : Float).toModel.unpack.compare x.toModel.unpack == some .lt) = true :=
    decide_eq_true_iff
  rw [horder, hzero, h]
  cases sign with
  | negative =>
      constructor
      · intro hlt
        cases hlt
      · intro hsign
        cases hsign
  | positive => exact ⟨fun _ => rfl, fun _ => rfl⟩

end Parts

/-! ## Arithmetic -/

section Arithmetic

variable {x : Float}

theorem HasParts.abs_eq_self (h : HasParts x) (hlt : 0 < x) : x.abs = x := by
  rcases h with ⟨sign, m, e, hpos, h⟩
  have hsign := (zero_lt_iff h).1 hlt
  subst hsign
  exact eq_of_unpack_eq ((unpack_abs h).trans h.symm)

theorem HasParts.neg_abs_eq_self (h : HasParts x) (hlt : ¬0 < x) : -x.abs = x := by
  rcases h with ⟨sign, m, e, hpos, h⟩
  rw [zero_lt_iff h] at hlt
  cases sign with
  | negative => exact eq_of_unpack_eq ((unpack_neg (unpack_abs h)).trans h.symm)
  | positive => exact absurd rfl hlt

theorem unpack_one : (1 : Float).toModel.unpack
    = .finite .positive (2 ^ 52) (-52) (by decide) := rfl

/-- Doubles are compared by their parts, and no other parts equal those of one. -/
theorem eq_one_of_beq_one (h : (x == 1) = true) : x = 1 := by
  have htest : (x.toModel.unpack.compare (1 : Float).toModel.unpack == some .eq) = true := h
  refine eq_of_unpack_eq ?_
  rw [unpack_one] at htest ⊢
  cases hparts : x.toModel.unpack with
  | notANumber =>
      rw [hparts] at htest
      cases htest
  | infinity sign =>
      rw [hparts] at htest
      cases sign <;> cases htest
  | zero sign =>
      rw [hparts] at htest
      cases htest
  | finite sign m e hpos =>
      rw [hparts] at htest
      cases sign with
      | negative => cases htest
      | positive =>
          have horder : (compare e (-52)).then (compare m (2 ^ 52)) = .eq :=
            Option.some.inj (eq_of_beq htest)
          rcases Ordering.then_eq_eq.1 horder with ⟨he, hm⟩
          exact finite_congr rfl (Nat.compare_eq_eq.1 hm) (Int.compare_eq_eq.1 he)

theorem zero_lt_of_beq_one (h : (x == 1) = true) : 0 < x := by
  rw [eq_one_of_beq_one h]
  exact (zero_lt_iff unpack_one).2 rfl

/-- The coefficients that count as zero are the two zeros. -/
theorem isZero_iff (x : Float) :
    Coefficient.isZero x = true ↔ ∃ sign, x.toModel.unpack = .zero sign := by
  have hzero : (0 : Float).toModel.unpack = .zero .positive := rfl
  have htest : Coefficient.isZero x
      = (x.toModel.unpack.compare (0 : Float).toModel.unpack == some .eq) := rfl
  rw [htest, hzero]
  constructor
  · intro hx
    cases hparts : x.toModel.unpack with
    | notANumber =>
        rw [hparts] at hx
        cases hx
    | infinity sign =>
        rw [hparts] at hx
        cases sign <;> cases hx
    | zero sign => exact ⟨sign, rfl⟩
    | finite sign m e hpos =>
        rw [hparts] at hx
        cases sign <;> cases hx
  · rintro ⟨sign, hparts⟩
    rw [hparts]
    rfl

/-- A double that does not count as zero is finite exactly if it has a significand. -/
theorem isFinite_iff_hasParts (h : Coefficient.isZero x = false) :
    x.isFinite = true ↔ HasParts x := by
  have hfinite : x.isFinite = x.toModel.unpack.isFinite := rfl
  rw [hfinite]
  constructor
  · intro hx
    cases hparts : x.toModel.unpack with
    | notANumber =>
        rw [hparts] at hx
        cases hx
    | infinity sign =>
        rw [hparts] at hx
        cases hx
    | zero sign =>
        -- A zero is finite too, and this is what the hypothesis excludes.
        have hzero := (isZero_iff x).2 ⟨sign, hparts⟩
        rw [h] at hzero
        cases hzero
    | finite sign m e hpos => exact ⟨sign, m, e, hpos, hparts⟩
  · rintro ⟨sign, m, e, hpos, hparts⟩
    rw [hparts]
    rfl

end Arithmetic

end Binary64

end PolyCalc
