import PolyCalc.Poly.View
import PolyCalc.Proofs.Poly.NormalForm
import Mathlib.Algebra.Polynomial.Div
import Mathlib.Algebra.Field.Rat
import Mathlib.Tactic.Ring

/-!
# Polynomials with Exact Coefficients

Over the rational numbers every operation on coefficients is exact, and then the
sparse polynomials are what their name says. `toPolynomial` sends the list of
stored terms to the polynomial in the sense of algebra, and each operation goes
over to the operation of the same name there. Stored zero terms are lost on the
way, and nothing else is: between polynomials without zero terms the map is
injective, so an equation of polynomials can be carried back to an equation of
the stored terms.

The bridge is the coefficient at an exponent. It is what `get?` finds, with zero
for nothing, and it is what `Polynomial.coeff` tells, so the equations of the
view are all that is needed of the list.

## Main definitions

* `termSum`: The sum of a list of terms.
* `toPolynomial`: The polynomial that stored terms denote.

## Theorems

* `coeff_toPolynomial`: The coefficients are those of the view.
* `toPolynomial_accumulateAll`: Accumulation is addition.
* `toPolynomial_prune`: Pruning changes nothing.
* `toPolynomial_add`, `toPolynomial_subtract`, `toPolynomial_multiply`: The ring
  operations.
* `eq_of_toPolynomial_eq`: Without zero terms nothing is lost.
-/

namespace PolyCalc

namespace Poly

open Polynomial

theorem isZero_iff {c : ℚ} : Coefficient.isZero c = true ↔ c = 0 := beq_iff_eq

theorem isZero_eq_false_iff {c : ℚ} : Coefficient.isZero c = false ↔ c ≠ 0 := beq_eq_false_iff_ne

/-- The sum of a list of terms. -/
noncomputable def termSum (terms : List (Term ℚ)) : ℚ[X] :=
  (terms.map fun t => Polynomial.monomial t.exponent t.coefficient).sum

/-- The polynomial that stored terms denote. -/
noncomputable def toPolynomial (p : Poly ℚ) : ℚ[X] := termSum p.terms

theorem termSum_nil : termSum [] = 0 := rfl

theorem termSum_cons (t : Term ℚ) (terms : List (Term ℚ)) :
    termSum (t :: terms) = Polynomial.monomial t.exponent t.coefficient + termSum terms := by
  rw [termSum, List.map_cons, List.sum_cons, termSum]

theorem termSum_append (s t : List (Term ℚ)) : termSum (s ++ t) = termSum s + termSum t := by
  rw [termSum, List.map_append, List.sum_append, termSum, termSum]

/-! ## Coefficients -/

theorem coeff_termSum_of_forall_ne {terms : List (Term ℚ)} {e : ℕ}
    (h : ∀ t ∈ terms, t.exponent ≠ e) : (termSum terms).coeff e = 0 := by
  induction terms with
  | nil => rw [termSum_nil, coeff_zero]
  | cons t terms ih =>
      rw [termSum_cons, coeff_add, coeff_monomial, if_neg (h t List.mem_cons_self), zero_add]
      exact ih fun s hs => h s (List.mem_cons_of_mem _ hs)

/-- At each exponent an ascending list has one term at most, so the sum of all
    terms has there the coefficient of the first one found. -/
theorem coeff_termSum {terms : List (Term ℚ)} (e : ℕ)
    (h : terms.Pairwise fun s t => s.exponent < t.exponent) :
    (termSum terms).coeff e
      = ((terms.find? fun t => t.exponent = e).map Term.coefficient).getD 0 := by
  induction terms with
  | nil => rw [termSum_nil, coeff_zero, List.find?_nil, Option.map_none, Option.getD_none]
  | cons t terms ih =>
      rw [List.pairwise_cons] at h
      rw [termSum_cons, coeff_add, coeff_monomial]
      by_cases he : t.exponent = e
      -- Behind the term at the exponent all terms have greater ones.
      · have hrest : ∀ s ∈ terms, s.exponent ≠ e := by
          intro s hs
          exact Nat.ne_of_gt (he ▸ h.1 s hs)
        rw [if_pos he, coeff_termSum_of_forall_ne hrest, add_zero,
          List.find?_cons_of_pos (by simpa using he), Option.map_some, Option.getD_some]
      · rw [if_neg he, zero_add, ih h.2, List.find?_cons_of_neg (by simpa using he)]

theorem coeff_toPolynomial (p : Poly ℚ) (e : ℕ) : p.toPolynomial.coeff e = p.coefficient e :=
  coeff_termSum e p.ascending

theorem coefficient_accumulate (p : Poly ℚ) (new : Term ℚ) (e : ℕ) :
    (p.accumulate new).coefficient e
      = p.coefficient e + if new.exponent = e then new.coefficient else 0 := by
  unfold coefficient
  rw [get?_accumulate]
  by_cases he : e = new.exponent
  -- The start from zero is exact, so only the new coefficient is added.
  · rw [if_pos he, if_pos he.symm]
    rfl
  · rw [if_neg he, if_neg (Ne.symm he), add_zero]

theorem coefficient_prune (p : Poly ℚ) (e : ℕ) : p.prune.coefficient e = p.coefficient e := by
  unfold coefficient
  rw [get?_prune]
  cases hget : p.get? e with
  | none => rfl
  | some c =>
      -- Pruning drops a stored zero, which counts as zero all the same.
      by_cases hc : c = 0
      · rw [Option.filter_some, if_neg (by rw [isZero_iff.2 hc]; decide), hc]
        rfl
      · rw [Option.filter_some, if_pos (by rw [isZero_eq_false_iff.2 hc]; decide)]

theorem coefficient_erase (p : Poly ℚ) (d e : ℕ) :
    (p.erase d).coefficient e = if e = d then 0 else p.coefficient e := by
  unfold coefficient
  rw [get?_erase]
  by_cases he : e = d
  · rw [if_pos he, if_pos he]
    rfl
  · rw [if_neg he, if_neg he]

/-! ## Operations -/

theorem toPolynomial_accumulate (p : Poly ℚ) (new : Term ℚ) :
    (p.accumulate new).toPolynomial
      = p.toPolynomial + Polynomial.monomial new.exponent new.coefficient := by
  ext e
  rw [coeff_add, coeff_monomial, coeff_toPolynomial, coeff_toPolynomial, coefficient_accumulate]

theorem toPolynomial_accumulateAll (p : Poly ℚ) (terms : List (Term ℚ)) :
    (p.accumulateAll terms).toPolynomial = p.toPolynomial + termSum terms := by
  induction terms generalizing p with
  | nil => rw [termSum_nil, add_zero, accumulateAll, List.foldl_nil]
  | cons t terms ih =>
      have hrest := ih (p.accumulate t)
      rw [accumulateAll, List.foldl_cons, ← accumulateAll, hrest, toPolynomial_accumulate,
        termSum_cons, add_assoc]

theorem toPolynomial_prune (p : Poly ℚ) : p.prune.toPolynomial = p.toPolynomial := by
  ext e
  rw [coeff_toPolynomial, coeff_toPolynomial, coefficient_prune]

/-- A term with the coefficient zero can be erased. -/
theorem toPolynomial_erase_of_coefficient_eq_zero {p : Poly ℚ} {d : ℕ}
    (h : p.coefficient d = 0) : (p.erase d).toPolynomial = p.toPolynomial := by
  ext e
  rw [coeff_toPolynomial, coeff_toPolynomial, coefficient_erase]
  by_cases he : e = d
  · rw [if_pos he, he, h]
  · rw [if_neg he]

theorem toPolynomial_empty : (empty : Poly ℚ).toPolynomial = 0 := termSum_nil

theorem toPolynomial_monomial (t : Term ℚ) :
    (Poly.monomial t).toPolynomial = Polynomial.monomial t.exponent t.coefficient := by
  rw [toPolynomial, Poly.monomial, termSum_cons, termSum_nil, add_zero]

theorem termSum_neg (p : Poly ℚ) : termSum p.neg.terms = -termSum p.terms := by
  have hterms : p.neg.terms = p.terms.map fun t => ⟨t.exponent, -t.coefficient⟩ := rfl
  rw [hterms]
  induction p.terms with
  | nil => rw [List.map_nil, termSum_nil, neg_zero]
  | cons t terms ih => rw [List.map_cons, termSum_cons, ih, termSum_cons, neg_add, monomial_neg]

theorem toPolynomial_add (p q : Poly ℚ) :
    (p.add q).toPolynomial = p.toPolynomial + q.toPolynomial := by
  rw [add, toPolynomial_prune, toPolynomial_accumulateAll, toPolynomial, toPolynomial]

theorem toPolynomial_subtract (p q : Poly ℚ) :
    (p.subtract q).toPolynomial = p.toPolynomial - q.toPolynomial := by
  rw [subtract, toPolynomial_prune, toPolynomial_accumulateAll, termSum_neg, sub_eq_add_neg,
    toPolynomial, toPolynomial]

theorem termSum_termProducts (t : Term ℚ) (terms : List (Term ℚ)) :
    termSum (termProducts t terms)
      = Polynomial.monomial t.exponent t.coefficient * termSum terms := by
  induction terms with
  | nil => rw [termProducts, List.map_nil, termSum_nil, mul_zero]
  | cons s terms ih =>
      rw [termProducts, List.map_cons, termSum_cons, ← termProducts, ih, termSum_cons, mul_add,
        monomial_mul_monomial]

theorem termSum_flatMap_termProducts (s t : List (Term ℚ)) :
    termSum (s.flatMap fun u => termProducts u t) = termSum s * termSum t := by
  induction s with
  | nil => rw [List.flatMap_nil, termSum_nil, zero_mul]
  | cons u s ih =>
      rw [List.flatMap_cons, termSum_append, ih, termSum_termProducts, termSum_cons, add_mul]

theorem toPolynomial_multiply (p q : Poly ℚ) :
    (p.multiply q).toPolynomial = p.toPolynomial * q.toPolynomial := by
  rw [multiply, toPolynomial_prune, ofTerms, toPolynomial_accumulateAll, products,
    termSum_flatMap_termProducts, toPolynomial_empty, zero_add, toPolynomial, toPolynomial]

/-! ## Injectivity -/

theorem get?_of_zeroFree {p : Poly ℚ} (h : p.ZeroFree) (e : ℕ) :
    p.get? e = if p.coefficient e = 0 then none else some (p.coefficient e) := by
  unfold coefficient
  cases hget : p.get? e with
  | none => exact (if_pos rfl).symm
  | some c =>
      have hc : c ≠ 0 := isZero_eq_false_iff.1 (h ⟨e, c⟩ (get?_eq_some_iff.1 hget))
      rw [Option.getD_some, if_neg hc]

theorem eq_of_toPolynomial_eq {p q : Poly ℚ} (hp : p.ZeroFree) (hq : q.ZeroFree)
    (h : p.toPolynomial = q.toPolynomial) : p = q := by
  refine eq_of_get?_eq fun e => ?_
  have hcoefficient : p.coefficient e = q.coefficient e := by
    rw [← coeff_toPolynomial, ← coeff_toPolynomial, h]
  rw [get?_of_zeroFree hp, get?_of_zeroFree hq, hcoefficient]

end Poly

end PolyCalc
