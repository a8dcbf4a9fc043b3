import PolyCalc.Poly.Closeness
import PolyCalc.Proofs.Binary64.Cancellation
import PolyCalc.Proofs.Binary64.Magnitude
import PolyCalc.Proofs.Poly.ZeroTerms

/-!
# Close Polynomials

Two polynomials are compared at the exponents that one of them stores, first those of the one
and then those of the other. What is meant is a comparison at every exponent. The two agree as
soon as two absent coefficients are close, and for a difference this takes a tolerance that is
not negative.

No double is closer to another one than the zeros are, whichever of them is stored or absent:
differences see zeros only up to their sign, magnitudes and equality not even that. So closeness
depends on what remains of the coefficients, and pruning changes nothing.

Without any tolerance the relation by proportion is equality. Two coefficients with a difference
that is zero are equal, since no difference is rounded to zero. Equality of pruned polynomials
says the same of all coefficients at once, the absence of a number included: that is equal to
nothing, so a polynomial with such a coefficient is not close to itself.

## Main definitions

* `IsCloseWithin`: Closeness by proportion, in words of the doubles.
* `ComparesCoefficients`: What the relations of polynomials compare.

## Theorems

* `closeBy_congr`, `closeWithin_congr`: Close doubles up to the sign of zero.
* `closeBy_commutes`, `closeWithin_commutes`: Closeness has no direction.
* `closeWithin_zero_iff`: Closeness without a tolerance is equality.
* `allCoefficients_iff`: A relation at every exponent.
* `equal_iff`: Equality of polynomials without zero terms.
* `closeness_compares_coefficients`: The relations compare coefficients.
-/

namespace PolyCalc

open Binary64
open Coefficient (unlessZero unlessZero_eq_iff)

variable {tolerance fraction x y x' y' : Float}

/-! ## Close doubles -/

/-- Doubles that are equal, or finite and not further apart than a tolerance or a fraction of
    the larger magnitude. Of the infinities and of what is not a number, nothing is close to
    anything else. -/
def IsCloseWithin (tolerance fraction x y : Float) : Prop :=
  (x == y) = true
    ∨ (x.isFinite = true ∧ y.isFinite = true)
      ∧ ((x - y).abs ≤ tolerance ∨ (x - y).abs ≤ largerMagnitude x y * fraction)

/-- Equal infinities are close by proportion and not by difference. -/
example : IsCloseWithin 1 1 infinity infinity ∧ closeBy 1 infinity infinity = false :=
  ⟨.inl (by decide +kernel), by decide +kernel⟩

theorem closeBy_iff : closeBy tolerance x y = true ↔ (x - y).abs ≤ tolerance := decide_eq_true_iff

/-- Doubles with a difference of some size are numbers or infinite. -/
theorem isNaN_eq_false_of_abs_subtract_le {bound : Float} (h : (x - y).abs ≤ bound) :
    x.isNaN = false ∧ y.isNaN = false := by
  have hnan := isNaN_eq_false_of_le h
  rw [isNaN_abs] at hnan
  constructor
  · refine Bool.eq_false_iff.2 fun hx => ?_
    rw [isNaN_subtract_of_left hx] at hnan
    cases hnan
  · refine Bool.eq_false_iff.2 fun hy => ?_
    rw [isNaN_subtract_of_right x hy] at hnan
    cases hnan

theorem closeWithin_iff :
    closeWithin tolerance fraction x y = true ↔ IsCloseWithin tolerance fraction x y := by
  unfold closeWithin IsCloseWithin
  rw [Bool.or_eq_true, Bool.and_eq_true, Bool.and_eq_true, Bool.or_eq_true, Bool.not_eq_true',
    Bool.not_eq_true', closeBy_iff, decide_eq_true_iff]
  refine or_congr_right (and_congr_left fun hnear => ?_)
  have hnan : x.isNaN = false ∧ y.isNaN = false := by
    rcases hnear with h | h
    · exact isNaN_eq_false_of_abs_subtract_le h
    · exact isNaN_eq_false_of_abs_subtract_le h
  rw [isFinite_iff, isFinite_iff, and_iff_left hnan.1, and_iff_left hnan.2]

/-! ## Zeros among doubles -/

section Zeros

variable (hx : unlessZero x = unlessZero x') (hy : unlessZero y = unlessZero y')
include hx hy

theorem closeBy_congr (tolerance : Float) : closeBy tolerance x y = closeBy tolerance x' y' := by
  have habs := abs_eq_of_unlessZero_eq (unlessZero_subtract hx hy)
  rw [closeBy, closeBy, habs]

theorem closeWithin_congr (tolerance fraction : Float) :
    closeWithin tolerance fraction x y = closeWithin tolerance fraction x' y' := by
  have hlarger : largerMagnitude x y = largerMagnitude x' y' := by
    rw [largerMagnitude, largerMagnitude, abs_eq_of_unlessZero_eq hx, abs_eq_of_unlessZero_eq hy]
  have habs := abs_eq_of_unlessZero_eq (unlessZero_subtract hx hy)
  have hfinite {z z' : Float} (h : unlessZero z = unlessZero z') : z.isFinite = z'.isFinite := by
    rw [← isFinite_abs, abs_eq_of_unlessZero_eq h, isFinite_abs]
  have hnan : x.isNaN = x'.isNaN := by
    rw [← isNaN_abs, abs_eq_of_unlessZero_eq hx, isNaN_abs]
  rw [Bool.eq_iff_iff, closeWithin_iff, closeWithin_iff, IsCloseWithin, IsCloseWithin, beq_iff,
    beq_iff, hx, hy, hnan, hfinite hx, hfinite hy, habs, hlarger]

end Zeros

/-- Zeros are close for any tolerance that is not negative. -/
theorem closeBy_zero (h : 0 ≤ tolerance) : closeBy tolerance 0 0 = true := by
  have hzero : (0 - 0 : Float).abs = 0 := rfl
  rw [closeBy_iff, hzero]
  exact h

theorem closeWithin_self_zero (tolerance fraction : Float) :
    closeWithin tolerance fraction 0 0 = true :=
  closeWithin_iff.2 (.inl rfl)

/-! ## The other direction -/

theorem closeBy_commutes (tolerance x y : Float) :
    closeBy tolerance x y = closeBy tolerance y x := by
  rw [closeBy, closeBy, abs_subtract_commutes]

theorem largerMagnitude_commutes (hx : x.isNaN = false) (hy : y.isNaN = false) :
    largerMagnitude x y = largerMagnitude y x := by
  unfold largerMagnitude
  by_cases hyx : y.abs < x.abs
  · rw [if_pos hyx, if_neg (not_abs_lt_of_abs_lt hy hx hyx)]
  · rw [if_neg hyx]
    by_cases hxy : x.abs < y.abs
    · rw [if_pos hxy]
    · rw [if_neg hxy, abs_eq_of_not_lt hx hy hxy hyx]

theorem closeWithin_commutes (tolerance fraction x y : Float) :
    closeWithin tolerance fraction x y = closeWithin tolerance fraction y x := by
  rw [Bool.eq_iff_iff, closeWithin_iff, closeWithin_iff, IsCloseWithin, IsCloseWithin,
    beq_commutes, abs_subtract_commutes, and_comm (a := x.isFinite = true)]
  refine or_congr_right (and_congr_right fun hfinite => ?_)
  rw [largerMagnitude_commutes (isNaN_eq_false_of_isFinite hfinite.2)
    (isNaN_eq_false_of_isFinite hfinite.1)]

/-! ## No tolerance -/

theorem isZero_largerMagnitude_multiply (hx : x.isFinite = true) (hy : y.isFinite = true) :
    Coefficient.isZero (largerMagnitude x y * 0) = true := by
  have hlarger : (largerMagnitude x y).isFinite = true := by
    unfold largerMagnitude
    split
    · rwa [isFinite_abs]
    · rwa [isFinite_abs]
  rw [multiply_commutes, isZero_multiply_eq isZero_zero, hlarger]

/-- Without a tolerance nothing is close but what is equal. -/
theorem closeWithin_zero_iff : closeWithin 0 0 x y = true ↔ (x == y) = true := by
  rw [closeWithin_iff]
  refine ⟨?_, .inl⟩
  rintro (hequal | ⟨⟨hx, hy⟩, hnear⟩)
  · exact hequal
  · have hzero : Coefficient.isZero (x - y) = true := by
      rcases hnear with h | h
      · exact (abs_le_iff_of_isZero isZero_zero).1 h
      · exact (abs_le_iff_of_isZero (isZero_largerMagnitude_multiply hx hy)).1 h
    exact (isZero_subtract_iff hx hy).1 hzero

namespace Poly

/-! ## All coefficients -/

variable {p q p' q' : Poly Float}

/-- A relation that holds of two zeros holds at every exponent if it holds at those that are
    stored. -/
theorem allCoefficients_iff {related : Float → Float → Bool} (hzero : related 0 0 = true) :
    p.allCoefficients related q = true
      ↔ ∀ e, related (p.coefficient e) (q.coefficient e) = true := by
  rw [allCoefficients, List.all_eq_true]
  refine ⟨fun h e => ?_, fun h e _ => h e⟩
  by_cases he : e ∈ p.exponents ++ q.exponents
  · exact h e he
  · rw [List.mem_append, not_or] at he
    rw [coefficient_of_get?_eq_none (get?_eq_none_iff.2 he.1),
      coefficient_of_get?_eq_none (get?_eq_none_iff.2 he.2)]
    exact hzero

theorem closeBy_iff (h : 0 ≤ tolerance) :
    p.closeBy tolerance q = true ↔ ∀ e, (p.coefficient e - q.coefficient e).abs ≤ tolerance :=
  (allCoefficients_iff (closeBy_zero h)).trans (forall_congr' fun _ => PolyCalc.closeBy_iff)

theorem closeWithin_iff :
    p.closeWithin tolerance fraction q = true
      ↔ ∀ e, IsCloseWithin tolerance fraction (p.coefficient e) (q.coefficient e) :=
  (allCoefficients_iff (closeWithin_self_zero tolerance fraction)).trans
    (forall_congr' fun _ => PolyCalc.closeWithin_iff)

/-- A relation without a direction is one of polynomials without a direction. -/
theorem allCoefficients_commutes {related : Float → Float → Bool} (hzero : related 0 0 = true)
    (hcomm : ∀ x y, related x y = related y x) (p q : Poly Float) :
    p.allCoefficients related q = q.allCoefficients related p := by
  rw [Bool.eq_iff_iff, allCoefficients_iff hzero, allCoefficients_iff hzero]
  exact forall_congr' fun e => by rw [hcomm]

/-- A relation that takes the zeros for the same takes polynomials for the same that are so when
    pruned. -/
theorem allCoefficients_of_prune_eq {related : Float → Float → Bool} (hzero : related 0 0 = true)
    (hcongr : ∀ {x x' y y' : Float}, unlessZero x = unlessZero x' → unlessZero y = unlessZero y' →
      related x y = related x' y') (hp : p.prune = p'.prune) (hq : q.prune = q'.prune) :
    p.allCoefficients related q = p'.allCoefficients related q' := by
  rw [Bool.eq_iff_iff, allCoefficients_iff hzero, allCoefficients_iff hzero]
  refine forall_congr' fun e => ?_
  rw [hcongr (unlessZero_coefficient_eq hp e) (unlessZero_coefficient_eq hq e)]

theorem prune_prune (p : Poly Float) : p.prune.prune = p.prune := prune_eq_self (zeroFree_prune p)

/-! ## Equality -/

/-- Terms that are not zero are equal, by the equality of their coefficients, if they are the
    same and all of them have a number for their coefficient or an infinity. -/
theorem zip_all_beq_iff {l m : List (Term Float)}
    (hl : ∀ t ∈ l, Coefficient.isZero t.coefficient = false) :
    (l.map Term.exponent = m.map Term.exponent
        ∧ ((l.zip m).all fun (s, t) => s.coefficient == t.coefficient) = true)
      ↔ l = m ∧ ∀ t ∈ l, t.coefficient.isNaN = false := by
  induction l generalizing m with
  | nil =>
      cases m with
      | nil => simp
      | cons t m => simp
  | cons s l ih =>
      cases m with
      | nil => simp
      | cons t m =>
          have hsame : unlessZero s.coefficient = unlessZero t.coefficient
              ↔ s.coefficient = t.coefficient := by
            rw [unlessZero_eq_iff, hl s List.mem_cons_self]
            exact or_iff_left fun h => nomatch h.1
          have hrest := ih (m := m) fun u hu => hl u (List.mem_cons_of_mem _ hu)
          rw [List.map_cons, List.map_cons, List.cons.injEq, List.zip_cons_cons, List.all_cons,
            Bool.and_eq_true, beq_iff, hsame, List.cons.injEq, List.forall_mem_cons,
            Term.mk.injEq]
          tauto

/-- Polynomials without zero terms are equal if they are the same and no coefficient is the
    absence of a number. -/
theorem equal_iff (hp : p.ZeroFree) :
    p.equal q = true ↔ p = q ∧ ∀ t ∈ p.terms, t.coefficient.isNaN = false := by
  rw [equal, Bool.and_eq_true, beq_iff_eq, exponents, exponents, zip_all_beq_iff hp]
  exact and_congr_left fun _ => ⟨eq_of_terms_eq, congrArg terms⟩

/-- All coefficients are equal if the pruned polynomials are. -/
theorem forall_beq_iff :
    (∀ e, (p.coefficient e == q.coefficient e) = true) ↔ p.prune.equal q.prune = true := by
  rw [equal_iff (zeroFree_prune p)]
  simp only [beq_iff, forall_and]
  have hprune : (∀ e, unlessZero (p.coefficient e) = unlessZero (q.coefficient e))
      ↔ p.prune = q.prune := by
    refine ⟨fun h => eq_of_get?_eq fun e => ?_, unlessZero_coefficient_eq⟩
    rw [get?_prune_eq_unlessZero, get?_prune_eq_unlessZero, h]
  have hnan : (∀ e, (p.coefficient e).isNaN = false)
      ↔ ∀ t ∈ p.prune.terms, t.coefficient.isNaN = false := by
    constructor
    · intro h t ht
      rw [← coefficient_of_get? (get?_eq_some_iff.2 (mem_prune.1 ht).1)]
      exact h t.exponent
    · intro h e
      cases hzero : Coefficient.isZero (p.coefficient e) with
      | true => exact isNaN_of_isZero hzero
      | false =>
          have hget : p.prune.get? e = some (p.coefficient e) := by
            rw [get?_prune_eq_unlessZero, Coefficient.unlessZero_of_not_isZero hzero]
          exact h ⟨e, p.coefficient e⟩ (get?_eq_some_iff.1 hget)
  rw [hprune, hnan]

/-! ## Closeness -/

/-- The relations of polynomials compare all coefficients, an absent one being zero. -/
structure ComparesCoefficients (tolerance fraction : Float) (p q : Poly Float) : Prop where
  /-- By difference, at every exponent there is, -/
  byDifference : p.closeBy tolerance q = true
    ↔ ∀ e, (p.coefficient e - q.coefficient e).abs ≤ tolerance
  /-- and by proportion. -/
  byProportion : p.closeWithin tolerance fraction q = true
    ↔ ∀ e, IsCloseWithin tolerance fraction (p.coefficient e) (q.coefficient e)
  /-- The polynomials may change places. -/
  exchanged : p.closeBy tolerance q = q.closeBy tolerance p
    ∧ p.closeWithin tolerance fraction q = q.closeWithin tolerance fraction p
  /-- The first one may be pruned, -/
  prunedLeft : p.prune.closeBy tolerance q = p.closeBy tolerance q
    ∧ p.prune.closeWithin tolerance fraction q = p.closeWithin tolerance fraction q
  /-- and the second one. -/
  prunedRight : p.closeBy tolerance q.prune = p.closeBy tolerance q
    ∧ p.closeWithin tolerance fraction q.prune = p.closeWithin tolerance fraction q
  /-- Without a tolerance the pruned polynomials are equal. -/
  withoutTolerance : p.closeWithin 0 0 q = p.prune.equal q.prune

/-- Closeness compares whole polynomials and not what happens to be stored: it is closeness of
    the coefficients at every exponent. It has no direction, zero terms do not count for it, and
    without a tolerance it is the equality of the pruned polynomials. Only for the relation by
    difference the tolerance must not be negative, or else zeros are not close to each other. -/
theorem closeness_compares_coefficients (h : 0 ≤ tolerance) (fraction : Float)
    (p q : Poly Float) : ComparesCoefficients tolerance fraction p q where
  byDifference := closeBy_iff h
  byProportion := closeWithin_iff
  exchanged :=
    ⟨allCoefficients_commutes (closeBy_zero h) (closeBy_commutes tolerance) p q,
      allCoefficients_commutes (closeWithin_self_zero tolerance fraction)
        (closeWithin_commutes tolerance fraction) p q⟩
  prunedLeft :=
    ⟨allCoefficients_of_prune_eq (closeBy_zero h) (fun hx hy => closeBy_congr hx hy tolerance)
        (prune_prune p) rfl,
      allCoefficients_of_prune_eq (closeWithin_self_zero tolerance fraction)
        (fun hx hy => closeWithin_congr hx hy tolerance fraction) (prune_prune p) rfl⟩
  prunedRight :=
    ⟨allCoefficients_of_prune_eq (closeBy_zero h) (fun hx hy => closeBy_congr hx hy tolerance)
        rfl (prune_prune q),
      allCoefficients_of_prune_eq (closeWithin_self_zero tolerance fraction)
        (fun hx hy => closeWithin_congr hx hy tolerance fraction) rfl (prune_prune q)⟩
  withoutTolerance := by
    rw [Bool.eq_iff_iff, ← forall_beq_iff, closeWithin_iff]
    exact forall_congr' fun e => PolyCalc.closeWithin_iff.symm.trans closeWithin_zero_iff

/-- The second polynomial lacks the stored zeros, and has another constant. -/
theorem closeness_compares_coefficients_padded :
    (0 : Float) ≤ 0.5
      ∧ ComparesCoefficients 0.5 0 padded (ofTerms [⟨0, -1.25⟩, ⟨2, 1⟩])
      ∧ padded.closeBy 0.5 (ofTerms [⟨0, -1.25⟩, ⟨2, 1⟩]) = true
      ∧ padded.closeWithin 0 0 (ofTerms [⟨0, -1.25⟩, ⟨2, 1⟩]) = false := by
  have htolerance : (0 : Float) ≤ 0.5 := by decide +kernel
  exact ⟨htolerance, closeness_compares_coefficients htolerance 0 _ _, by decide +kernel,
    by decide +kernel⟩

end Poly

end PolyCalc
