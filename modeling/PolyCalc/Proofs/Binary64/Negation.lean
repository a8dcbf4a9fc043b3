import PolyCalc.Proofs.Binary64.Exactness
import PolyCalc.Proofs.Coefficient

/-!
# Negatives of Doubles

The negative of a double has the other sign and nothing else changes: the sign is a field
of its own, both in the word and in the parts. Since rounding to the nearest double treats
both signs alike, the sum of two negatives is the negative of the sum, and a difference is
the sum with a negative. Only a sum that is zero has a sign of its own: what cancels leaves
the positive zero, whichever of the operands was the negative one.

Negatives and sums of doubles therefore obey laws up to the sign of zero. Two doubles of
which the same remains when zeros are dropped are the same number, or no number both.

## Main definitions

* `IsSameNumber`: Doubles that are equal as numbers, or both not a number.

## Theorems

* `unpack_pack_neg`: A negative is put together with the other sign.
* `unpack_negative`: The parts of a negative.
* `unpacked_add_neg`: The sum of two negatives.
* `subtract_eq_add_neg`: A difference is the sum with a negative.
* `isZero_add_neg_self`: A finite double and its negative cancel.
* `isSameNumber_iff`: What remains of doubles that are the same number.
-/

namespace PolyCalc

namespace Binary64

open Float.Model (UnpackedFloat Format)
open Float.Model.UnpackedFloat
open Coefficient (unlessZero unlessZero_eq_iff)

/-! ## The sign in the word -/

theorem sign_neg_neg (s : Sign) : - -s = s := by
  cases s <;> rfl

theorem unpackSign_packComponents (s : Sign) (e : BitVec 11) (m : BitVec 52) :
    unpackSign (packComponents Format.binary64 s e m) = s.toBitVec := by
  have hs : s.toBitVec.toNat < 2 := s.toBitVec.isLt
  have he : e.toNat < 2 ^ 11 := e.isLt
  have hm : m.toNat < 2 ^ 52 := m.isLt
  refine BitVec.eq_of_toNat_eq ?_
  rw [toNat_unpackSign, toNat_packComponents]
  omega

/-- Words that differ in the sign have parts that differ in the sign. -/
theorem unpack_eq_neg_of_fields {b c : BitVec Format.binary64.numBits}
    (hsign : Sign.ofBitVec (unpackSign c) = -Sign.ofBitVec (unpackSign b))
    (hexponent : unpackExponent c = unpackExponent b)
    (hmantissa : unpackMantissa c = unpackMantissa b) :
    UnpackedFloat.unpack Format.binary64 c = (UnpackedFloat.unpack Format.binary64 b).neg := by
  by_cases hones : unpackExponent b = -1#_
  · by_cases hnil : unpackMantissa b = 0#_
    · rw [unpack_infinity hones hnil,
        unpack_infinity (hexponent.trans hones) (hmantissa.trans hnil), hsign]
      rfl
    · rw [unpack_notANumber hones hnil,
        unpack_notANumber (hexponent.trans hones) (hmantissa ▸ hnil)]
      rfl
  · by_cases hzero : unpackExponent b = 0#_
    · by_cases hnil : unpackMantissa b = 0#_
      · rw [unpack_zero hones hzero hnil,
          unpack_zero (hexponent ▸ hones) (hexponent.trans hzero) (hmantissa.trans hnil), hsign]
        rfl
      · have hpos : 0 < (unpackMantissa b).toNat :=
          Nat.pos_of_ne_zero fun hne => hnil (BitVec.eq_of_toNat_eq hne)
        rw [unpack_subnormal hones hzero hpos,
          unpack_subnormal (hexponent ▸ hones) (hexponent.trans hzero) (hmantissa ▸ hpos)]
        exact finite_congr hsign (congrArg BitVec.toNat hmantissa) rfl
    · rw [unpack_normal hones hzero, unpack_normal (hexponent ▸ hones) (hexponent ▸ hzero)]
      exact finite_congr hsign (by rw [hmantissa]) (by rw [hexponent])

theorem unpack_packComponents_neg (s : Sign) (e : BitVec 11) (m : BitVec 52) :
    UnpackedFloat.unpack Format.binary64 (packComponents Format.binary64 (-s) e m)
      = (UnpackedFloat.unpack Format.binary64 (packComponents Format.binary64 s e m)).neg := by
  refine unpack_eq_neg_of_fields ?_ ?_ ?_
  · rw [unpackSign_packComponents, unpackSign_packComponents, ofBitVec_toBitVec,
      ofBitVec_toBitVec]
  · rw [unpackExponent_packComponents, unpackExponent_packComponents]
  · rw [unpackMantissa_packComponents, unpackMantissa_packComponents]

theorem unpacked_neg_finite (s : Sign) {m : Nat} (e : Int) (hm : 0 < m) :
    (UnpackedFloat.finite s m e hm).neg = .finite (-s) m e hm := rfl

theorem unpack_pack_neg (x : UnpackedFloat) :
    (Float.Model.pack x.neg).unpack = (Float.Model.pack x).unpack.neg := by
  cases x with
  | notANumber => rfl
  | infinity s => exact unpack_packComponents_neg s _ _
  | zero s => exact unpack_packComponents_neg s _ _
  | finite s m e hpos =>
      have hunpack (y : UnpackedFloat) : (Float.Model.pack y).unpack
          = UnpackedFloat.unpack Format.binary64 (UnpackedFloat.pack Format.binary64 y) := rfl
      rw [hunpack, hunpack, unpacked_neg_finite]
      unfold UnpackedFloat.pack
      dsimp only
      split
      · exact unpack_packComponents_neg s _ _
      · split
        · exact unpack_packComponents_neg s _ _
        · exact unpack_packComponents_neg s _ _

/-- The negative of a double has its parts with the other sign. -/
theorem unpack_negative (x : Float) : (-x).toModel.unpack = x.toModel.unpack.neg := by
  have hmodel : (-x).toModel = Float.Model.pack x.toModel.unpack.neg := rfl
  rw [hmodel, unpack_pack_neg, pack_unpack]

theorem unpacked_neg_neg (x : UnpackedFloat) : x.neg.neg = x := by
  cases x with
  | notANumber => rfl
  | infinity s => exact congrArg UnpackedFloat.infinity (sign_neg_neg s)
  | zero s => exact congrArg UnpackedFloat.zero (sign_neg_neg s)
  | finite s m e hpos => exact finite_congr (sign_neg_neg s) rfl rfl

theorem neg_neg_eq_self (x : Float) : - -x = x := by
  refine eq_of_unpack_eq ?_
  rw [unpack_negative, unpack_negative, unpacked_neg_neg]

theorem isZero_neg (x : Float) : Coefficient.isZero (-x) = Coefficient.isZero x := by
  have hzero {y : Float} (h : Coefficient.isZero y = true) : Coefficient.isZero (-y) = true := by
    obtain ⟨s, hs⟩ := (isZero_iff y).1 h
    refine (isZero_iff (-y)).2 ⟨-s, ?_⟩
    rw [unpack_negative, hs]
    rfl
  rw [Bool.eq_iff_iff]
  exact ⟨fun h => neg_neg_eq_self x ▸ hzero h, hzero⟩

theorem isFinite_neg (x : Float) : (-x).isFinite = x.isFinite := by
  have hfinite (y : Float) : y.isFinite = y.toModel.unpack.isFinite := rfl
  rw [hfinite, hfinite, unpack_negative]
  cases x.toModel.unpack <;> rfl

theorem isNaN_neg (x : Float) : (-x).isNaN = x.isNaN := by
  have hnan (y : Float) : y.isNaN = y.toModel.unpack.isNaN := rfl
  rw [hnan, hnan, unpack_negative]
  cases x.toModel.unpack <;> rfl

/-! ## Sums of negatives -/

theorem apply_neg (s : Sign) (i : Int) : (-s).apply i = -s.apply i := by
  cases s with
  | negative => exact (Int.neg_neg i).symm
  | positive => rfl

theorem roundWithAccuracy_neg (spec : Format) (s : Sign) (m : Nat) (e : Int) (a : Accuracy) :
    roundWithAccuracy spec (-s) m e a = (roundWithAccuracy spec s m e a).neg := by
  -- The mantissa and the exponent are rounded without a look at the sign.
  obtain ⟨final, hround⟩ : ∃ final : ExtendedMantissa × Int, ∀ sign,
      roundWithAccuracy spec sign m e a
        = if h : final.1.mantissa = 0 then .zero sign
          else .finite sign final.1.mantissa final.2 (Nat.pos_of_ne_zero h) :=
    ⟨shiftToTargetExponent spec (shiftToTargetExponent spec m e a).1.roundedMantissa
      (shiftToTargetExponent spec m e a).2 .exact, fun _ => rfl⟩
  by_cases hzero : final.1.mantissa = 0
  · rw [hround, hround, dif_pos hzero, dif_pos hzero]
    rfl
  · rw [hround, hround, dif_neg hzero, dif_neg hzero]
    rfl

/-- A number is rounded in the same way with either sign. -/
theorem normalize_neg {i : Int} (hi : i ≠ 0) (e : Int) (zeroSign : Sign) :
    UnpackedFloat.normalize Format.binary64 (-i) e zeroSign
      = (UnpackedFloat.normalize Format.binary64 i e zeroSign).neg := by
  have hsign : (if 0 < -i then Sign.positive else .negative)
      = -(if 0 < i then Sign.positive else .negative) := by
    by_cases hpos : 0 < i
    · rw [if_pos hpos, if_neg (by omega)]
      rfl
    · rw [if_neg hpos, if_pos (by omega)]
      rfl
  rw [normalize_eq_round (by omega), normalize_eq_round hi, Int.natAbs_neg, hsign]
  exact roundWithAccuracy_neg _ _ _ _ _

/-- The sum of two negatives is the negative of the sum, unless both sums are zero. -/
theorem unpacked_add_neg (x y : UnpackedFloat) :
    UnpackedFloat.add Format.binary64 x.neg y.neg
        = (UnpackedFloat.add Format.binary64 x y).neg
      ∨ (∃ s, UnpackedFloat.add Format.binary64 x.neg y.neg = .zero s)
        ∧ ∃ s, UnpackedFloat.add Format.binary64 x y = .zero s := by
  cases x <;> cases y
  case infinity.infinity s t => cases s <;> cases t <;> exact .inl rfl
  -- Zeros of different signs have the positive zero for their sum, in both sums.
  case zero.zero s t =>
    cases s <;> cases t
    case negative.negative => exact .inl rfl
    case positive.positive => exact .inl rfl
    all_goals exact .inr ⟨⟨_, rfl⟩, _, rfl⟩
  case finite.finite s m e hm t n f hn =>
    rw [unpacked_neg_finite, unpacked_neg_finite, unpacked_add_finite, unpacked_add_finite,
      apply_neg, apply_neg, ← Int.neg_add]
    generalize s.apply _ + t.apply _ = i
    by_cases hi : i = 0
    · subst hi
      exact .inr ⟨⟨.positive, rfl⟩, .positive, rfl⟩
    · exact .inl (normalize_neg hi _ _)
  all_goals exact .inl rfl

theorem toModel_add_neg (x y : Float) : (-x + -y).toModel
    = Float.Model.pack (UnpackedFloat.add Format.binary64 x.toModel.unpack.neg
      y.toModel.unpack.neg) := by
  rw [toModel_add, unpack_negative, unpack_negative]

theorem isZero_of_toModel {x : Float} {s : Sign} (h : x.toModel = Float.Model.pack (.zero s)) :
    Coefficient.isZero x = true :=
  (isZero_iff x).2 ⟨s, by rw [h, unpack_pack_zero]⟩

theorem unlessZero_add_neg (x y : Float) : unlessZero (-x + -y) = unlessZero (-(x + y)) := by
  rw [unlessZero_eq_iff]
  rcases unpacked_add_neg x.toModel.unpack y.toModel.unpack with h | ⟨⟨s, hs⟩, t, ht⟩
  · left
    refine eq_of_unpack_eq ?_
    rw [toModel_add_neg, h, unpack_pack_neg, unpack_negative, toModel_add]
  · right
    rw [isZero_neg]
    exact ⟨isZero_of_toModel (by rw [toModel_add_neg, hs]),
      isZero_of_toModel (by rw [toModel_add, ht])⟩

/-! ## Differences -/

theorem unpacked_subtract_eq (x y : UnpackedFloat) :
    UnpackedFloat.sub Format.binary64 x y = UnpackedFloat.add Format.binary64 x y.neg := by
  cases x <;> cases y
  case finite.finite s m e hm t n f hn =>
    have hsub : UnpackedFloat.sub Format.binary64 (.finite s m e hm) (.finite t n f hn)
        = UnpackedFloat.normalize Format.binary64 (s.apply (decreaseExponent m e (min e f)).1
          - t.apply (decreaseExponent n f (min e f)).1) (min e f) .positive := rfl
    rw [hsub, unpacked_neg_finite, unpacked_add_finite, apply_neg, Int.sub_eq_add_neg]
  all_goals rfl

/-- A difference is the sum with the negative, also where it is zero or not a number. -/
theorem subtract_eq_add_neg (x y : Float) : x - y = x + -y := by
  have hmodel : (x - y).toModel = Float.Model.pack
      (UnpackedFloat.sub Format.binary64 x.toModel.unpack y.toModel.unpack) := rfl
  refine eq_of_unpack_eq ?_
  rw [hmodel, unpacked_subtract_eq, toModel_add, unpack_negative]

/-- A finite double and its negative cancel. -/
theorem isZero_add_neg_self {x : Float} (h : x.isFinite = true) :
    Coefficient.isZero (x + -x) = true := by
  have hfinite : x.toModel.unpack.isFinite = true := h
  have hzero : ∃ s, UnpackedFloat.add Format.binary64 x.toModel.unpack x.toModel.unpack.neg
      = .zero s := by
    cases hparts : x.toModel.unpack with
    | notANumber =>
        rw [hparts] at hfinite
        cases hfinite
    | infinity s =>
        rw [hparts] at hfinite
        cases hfinite
    | zero s => cases s <;> exact ⟨_, rfl⟩
    | finite s m e hpos =>
        refine ⟨.positive, ?_⟩
        rw [unpacked_neg_finite, unpacked_add_finite, apply_neg, Int.min_self, Int.add_right_neg]
        rfl
  obtain ⟨s, hs⟩ := hzero
  exact isZero_of_toModel (by rw [toModel_add, unpack_negative, hs])

instance : Coefficient.LawfulSums Float where
  isZero_zero := isZero_zero
  isZero_neg := isZero_neg
  neg_neg := neg_neg_eq_self
  add_comm := add_commutes
  zero_add z a hz := by
    cases ha : Coefficient.isZero a with
    | false => rw [add_eq_of_isZero hz ha]
    | true => exact unlessZero_eq_iff.2 (.inr ⟨isZero_add hz ha, ha⟩)
  neg_add := unlessZero_add_neg

/-! ## The same number -/

/-- Doubles that are equal as numbers, or both not a number. -/
def IsSameNumber (x y : Float) : Prop := (x == y) = true ∨ x.isNaN = true ∧ y.isNaN = true

instance (x y : Float) : Decidable (IsSameNumber x y) :=
  inferInstanceAs (Decidable ((x == y) = true ∨ x.isNaN = true ∧ y.isNaN = true))

theorem eq_of_compare_finite {m n : Nat} {e f : Int}
    (h : (compare e f).then (compare m n) = .eq) : m = n ∧ e = f := by
  rcases Ordering.then_eq_eq.1 h with ⟨he, hm⟩
  exact ⟨Nat.compare_eq_eq.1 hm, Int.compare_eq_eq.1 he⟩

/-- Parts that are compared as equal are the same, or zeros both. -/
theorem eq_of_unpacked_compare {x y : UnpackedFloat} (h : (x.compare y == some .eq) = true) :
    x = y ∨ (∃ s, x = .zero s) ∧ ∃ s, y = .zero s := by
  cases x <;> cases y
  case zero.zero s t => exact .inr ⟨⟨s, rfl⟩, t, rfl⟩
  case infinity.infinity s t =>
    cases s <;> cases t
    case negative.negative => exact .inl rfl
    case positive.positive => exact .inl rfl
    all_goals cases h
  case finite.finite s m e hm t n f hn =>
    cases s <;> cases t
    case negative.negative =>
      have hswap : ((compare e f).then (compare m n)).swap = .eq := Option.some.inj (eq_of_beq h)
      obtain ⟨hmn, hef⟩ := eq_of_compare_finite (Ordering.swap_eq_eq.1 hswap)
      exact .inl (finite_congr rfl hmn hef)
    case positive.positive =>
      obtain ⟨hmn, hef⟩ := eq_of_compare_finite (Option.some.inj (eq_of_beq h))
      exact .inl (finite_congr rfl hmn hef)
    all_goals cases h
  -- Of two different kinds the sign of one tells which is greater.
  case infinity.zero s _ | infinity.finite s _ _ _ _ | finite.zero s _ _ _ _ =>
    cases s <;> cases h
  case zero.infinity _ s | finite.infinity _ _ _ _ s | zero.finite _ s _ _ _ =>
    cases s <;> cases h
  all_goals cases h

/-- Everything that is a number, or infinite, is compared as equal to itself. -/
theorem unpacked_compare_self {x : UnpackedFloat} (h : x.isNaN = false) :
    (x.compare x == some .eq) = true := by
  cases x with
  | notANumber => cases h
  | infinity s => cases s <;> rfl
  | zero s => rfl
  | finite s m e hm =>
      have horder : (compare e e).then (compare m m) = .eq :=
        Ordering.then_eq_eq.2 ⟨Int.compare_eq_eq.2 rfl, Nat.compare_eq_eq.2 rfl⟩
      cases s with
      | negative => exact beq_iff_eq.2 (congrArg some (Ordering.swap_eq_eq.2 horder))
      | positive => exact beq_iff_eq.2 (congrArg some horder)

theorem eq_notANumber_of_isNaN {x : UnpackedFloat} (h : x.isNaN = true) : x = .notANumber := by
  cases x with
  | notANumber => rfl
  | infinity s => cases h
  | zero s => cases h
  | finite s m e hm => cases h

/-- Parts are compared as equal if they are the same, or zeros both, and what is not a
    number is not compared. -/
theorem unpacked_compare_iff (x y : UnpackedFloat) :
    ((x.compare y == some .eq) = true ∨ x.isNaN = true ∧ y.isNaN = true)
      ↔ x = y ∨ (∃ s, x = .zero s) ∧ ∃ s, y = .zero s := by
  constructor
  · rintro (h | ⟨hx, hy⟩)
    · exact eq_of_unpacked_compare h
    · exact .inl ((eq_notANumber_of_isNaN hx).trans (eq_notANumber_of_isNaN hy).symm)
  · rintro (rfl | ⟨⟨s, rfl⟩, t, rfl⟩)
    · cases h : x.isNaN with
      | false => exact .inl (unpacked_compare_self h)
      | true => exact .inr ⟨rfl, rfl⟩
    · exact .inl rfl

/-- Of doubles that are the same number the same remains. -/
theorem isSameNumber_iff {x y : Float} : IsSameNumber x y ↔ unlessZero x = unlessZero y := by
  have hparts : IsSameNumber x y
      ↔ x.toModel.unpack = y.toModel.unpack
        ∨ (∃ s, x.toModel.unpack = .zero s) ∧ ∃ s, y.toModel.unpack = .zero s :=
    unpacked_compare_iff _ _
  rw [hparts, unlessZero_eq_iff, isZero_iff, isZero_iff]
  exact or_congr_left ⟨eq_of_unpack_eq, fun h => h ▸ rfl⟩

end Binary64

end PolyCalc
