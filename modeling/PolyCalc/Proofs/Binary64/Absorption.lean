import PolyCalc.Proofs.Binary64.Negation

/-!
# What Zeros Absorb

A zero times a finite double is a zero, whatever the double is. A zero times an infinity
is not a number, though, and nothing that is added to it makes it one again. So a zero
factor is no safeguard: it is the other factor that decides about the product, and with it
about every sum that the product is a part of.

## Theorems

* `isZero_multiply_eq`, `isNaN_multiply_eq`: A product with zero, by the other factor.
* `IsSameNumber.isNaN_eq`: What is the same is not a number either.
* `add_eq_of_isNaN`: Nothing changes what is not a number.
* `isNaN_foldl_add`: One such summand decides about the sum.
-/

namespace PolyCalc

namespace Binary64

open Float.Model (UnpackedFloat Format)

variable {x : Float}

/-! ## Products with zero -/

theorem isFinite_of_isZero (h : Coefficient.isZero x = true) : x.isFinite = true := by
  obtain ⟨s, hs⟩ := (isZero_iff x).1 h
  have hfinite : x.isFinite = x.toModel.unpack.isFinite := rfl
  rw [hfinite, hs]
  rfl

theorem isNaN_of_isZero (h : Coefficient.isZero x = true) : x.isNaN = false := by
  obtain ⟨s, hs⟩ := (isZero_iff x).1 h
  have hnan : x.isNaN = x.toModel.unpack.isNaN := rfl
  rw [hnan, hs]
  rfl

theorem unpack_pack_notANumber :
    (Float.Model.pack .notANumber).unpack = .notANumber := rfl

/-- A product with zero is a zero or not a number, depending on the other factor. -/
theorem unpack_multiply_of_isZero (hx : Coefficient.isZero x = true) (y : Float) :
    (y.isFinite = true ∧ ∃ s, (x * y).toModel.unpack = .zero s)
      ∨ (y.isFinite = false ∧ (x * y).toModel.unpack = .notANumber) := by
  obtain ⟨s, hx⟩ := (isZero_iff x).1 hx
  have hfinite : y.isFinite = y.toModel.unpack.isFinite := rfl
  rw [hfinite, toModel_multiply, hx]
  cases y.toModel.unpack with
  | notANumber => exact .inr ⟨rfl, unpack_pack_notANumber⟩
  | infinity t => exact .inr ⟨rfl, unpack_pack_notANumber⟩
  | zero t => exact .inl ⟨rfl, s * t, unpack_pack_zero _⟩
  | finite t m e hpos => exact .inl ⟨rfl, s * t, unpack_pack_zero _⟩

theorem isZero_multiply_eq (hx : Coefficient.isZero x = true) (y : Float) :
    Coefficient.isZero (x * y) = y.isFinite := by
  rcases unpack_multiply_of_isZero hx y with ⟨hy, hzero⟩ | ⟨hy, hnone⟩
  · rw [hy, isZero_iff]
    exact hzero
  · rw [hy, Bool.eq_false_iff]
    intro hzero
    obtain ⟨s, hs⟩ := (isZero_iff _).1 hzero
    cases hs.symm.trans hnone

theorem isNaN_multiply_eq (hx : Coefficient.isZero x = true) (y : Float) :
    (x * y).isNaN = !y.isFinite := by
  have hnan : (x * y).isNaN = (x * y).toModel.unpack.isNaN := rfl
  rcases unpack_multiply_of_isZero hx y with ⟨hy, s, hs⟩ | ⟨hy, hnone⟩
  · rw [hnan, hs, hy]
    rfl
  · rw [hnan, hnone, hy]
    rfl

/-! ## Sums with something that is not a number -/

theorem IsSameNumber.isNaN_eq {y : Float} (h : IsSameNumber x y) : x.isNaN = y.isNaN := by
  rw [isSameNumber_iff, Coefficient.unlessZero_eq_iff] at h
  rcases h with rfl | ⟨hx, hy⟩
  · rfl
  · rw [isNaN_of_isZero hx, isNaN_of_isZero hy]

/-- What is not a number stays the same, whatever is added. -/
theorem add_eq_of_isNaN (h : x.isNaN = true) (y : Float) : x + y = x := by
  have hx : x.toModel.unpack = .notANumber := eq_notANumber_of_isNaN h
  have hsum (z : UnpackedFloat) :
      UnpackedFloat.add Format.binary64 .notANumber z = .notANumber := by
    cases z <;> rfl
  refine eq_of_unpack_eq ?_
  rw [toModel_add, hx, hsum, unpack_pack_notANumber]

theorem isNaN_foldl_add {cs : List Float} {sum : Float}
    (h : sum.isNaN = true ∨ ∃ c ∈ cs, c.isNaN = true) :
    (cs.foldl (· + ·) sum).isNaN = true := by
  induction cs generalizing sum with
  | nil =>
      rcases h with hsum | ⟨c, hc, -⟩
      · exact hsum
      · cases hc
  | cons d cs ih =>
      rw [List.foldl_cons]
      refine ih ?_
      rcases h with hsum | ⟨c, hc, hnan⟩
      · rw [add_eq_of_isNaN hsum]
        exact .inl hsum
      · rcases List.mem_cons.1 hc with rfl | hc
        · rw [add_commutes, add_eq_of_isNaN hnan]
          exact .inl hnan
        · exact .inr ⟨c, hc, hnan⟩

end Binary64

end PolyCalc
