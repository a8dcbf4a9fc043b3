import PolyCalc.Poly.Arithmetic
import PolyCalc.Proofs.Poly.Euclidean
import PolyCalc.Proofs.Poly.Supports
import Mathlib.Algebra.Polynomial.Eval.Degree

/-!
# Exact Arithmetic Is Polynomial Arithmetic

With exact coefficients the operations on sparse polynomials obey the laws that
their names promise. There are two kinds of laws, and `toPolynomial` gives both.

Evaluation runs over the stored terms, and so does `toPolynomial`: the value at
a point is the value there of the polynomial in the sense of algebra. Zero terms
have the value zero, so it does not matter which of them are stored, and the
value of a result is computed from the values of the operands.

Laws between polynomials are equations of the stored terms, not only of values.
Results of operations are pruned, so they store no zero term, and then equal
polynomials in the sense of algebra have equal terms. The negative alone is not
pruned, and it appears in no such law.

The degree of a product is the sum of the degrees of the factors. A zero term
can pose as the leading one in a factor, which is why the factors are pruned
there. A zero polynomial has no degree to add, and a product with one has no
term.

## Theorems

* `evaluate_eq_eval`: The value is the value in the sense of algebra.
* `evaluate_prune`: Zero terms do not change a value.
* `evaluate_add`, `evaluate_subtract`, `evaluate_multiply`, `evaluate_neg`: The
  values of results.
* `add_commutes`, `add_associates`, `multiply_commutes`, `multiply_associates`,
  `multiply_distributes`: The laws of a commutative ring.
* `degree_multiply`: The degree of a product.
* `arithmetic_obeys_ring_laws`: All of them.
-/

namespace PolyCalc

namespace Poly

open Polynomial

/-! ## Values -/

theorem eval_termSum (terms : List (Term ℚ)) (x : ℚ) :
    (termSum terms).eval x = (terms.map fun t => t.coefficient * x ^ t.exponent).sum := by
  induction terms with
  | nil => rw [termSum_nil, eval_zero, List.map_nil, List.sum_nil]
  | cons t terms ih =>
      rw [termSum_cons, eval_add, eval_monomial, ih, List.map_cons, List.sum_cons]

/-- The value at a point is the value of the polynomial in the sense of algebra.
    The sum starts from zero, and in exact sums the order does not matter. -/
theorem evaluate_eq_eval (p : Poly ℚ) (x : ℚ) : p.evaluate x = p.toPolynomial.eval x := by
  have hsum : p.evaluate x = (p.terms.map fun t => t.coefficient * x ^ t.exponent).sum :=
    List.sum_eq_foldl.symm
  rw [hsum, toPolynomial, eval_termSum]

theorem evaluate_prune (p : Poly ℚ) (x : ℚ) : p.prune.evaluate x = p.evaluate x := by
  rw [evaluate_eq_eval, evaluate_eq_eval, toPolynomial_prune]

theorem evaluate_add (p q : Poly ℚ) (x : ℚ) :
    (p.add q).evaluate x = p.evaluate x + q.evaluate x := by
  rw [evaluate_eq_eval, evaluate_eq_eval, evaluate_eq_eval, toPolynomial_add, eval_add]

theorem evaluate_subtract (p q : Poly ℚ) (x : ℚ) :
    (p.subtract q).evaluate x = p.evaluate x - q.evaluate x := by
  rw [evaluate_eq_eval, evaluate_eq_eval, evaluate_eq_eval, toPolynomial_subtract, eval_sub]

theorem evaluate_multiply (p q : Poly ℚ) (x : ℚ) :
    (p.multiply q).evaluate x = p.evaluate x * q.evaluate x := by
  rw [evaluate_eq_eval, evaluate_eq_eval, evaluate_eq_eval, toPolynomial_multiply, eval_mul]

theorem toPolynomial_neg (p : Poly ℚ) : p.neg.toPolynomial = -p.toPolynomial := termSum_neg p

theorem evaluate_neg (p : Poly ℚ) (x : ℚ) : p.neg.evaluate x = -p.evaluate x := by
  rw [evaluate_eq_eval, evaluate_eq_eval, toPolynomial_neg, eval_neg]

/-! ## Laws of a ring -/

theorem add_commutes (p q : Poly ℚ) : p.add q = q.add p := by
  refine eq_of_toPolynomial_eq (zeroFree_add _ _) (zeroFree_add _ _) ?_
  rw [toPolynomial_add, toPolynomial_add, add_comm]

theorem add_associates (p q r : Poly ℚ) : (p.add q).add r = p.add (q.add r) := by
  refine eq_of_toPolynomial_eq (zeroFree_add _ _) (zeroFree_add _ _) ?_
  simp only [toPolynomial_add, add_assoc]

theorem multiply_commutes (p q : Poly ℚ) : p.multiply q = q.multiply p := by
  refine eq_of_toPolynomial_eq (zeroFree_multiply _ _) (zeroFree_multiply _ _) ?_
  rw [toPolynomial_multiply, toPolynomial_multiply, mul_comm]

theorem multiply_associates (p q r : Poly ℚ) :
    (p.multiply q).multiply r = p.multiply (q.multiply r) := by
  refine eq_of_toPolynomial_eq (zeroFree_multiply _ _) (zeroFree_multiply _ _) ?_
  simp only [toPolynomial_multiply, mul_assoc]

theorem multiply_distributes (p q r : Poly ℚ) :
    p.multiply (q.add r) = (p.multiply q).add (p.multiply r) := by
  refine eq_of_toPolynomial_eq (zeroFree_multiply _ _) (zeroFree_add _ _) ?_
  simp only [toPolynomial_multiply, toPolynomial_add, mul_add]

/-! ## Degrees -/

/-- A polynomial is zero in the sense of algebra if all its stored terms are zero. -/
theorem toPolynomial_eq_zero_iff {p : Poly ℚ} : p.toPolynomial = 0 ↔ p.isZero = true := by
  rw [isZero_iff_terms_prune, ← toPolynomial_prune, ← toPolynomial_empty]
  constructor
  · intro h
    have hempty : p.prune = empty :=
      eq_of_toPolynomial_eq (zeroFree_prune p) (List.forall_mem_nil _) h
    rw [hempty]
    rfl
  · intro h
    rw [toPolynomial, h]
    rfl

theorem degree_eq_natDegree {p : Poly ℚ} (h : p.ZeroFree) :
    p.degree = p.toPolynomial.natDegree := by
  cases hlead : p.leadingTerm? with
  | none =>
      rw [degree, hlead, toPolynomial, leadingTerm?_eq_none_iff.1 hlead, termSum_nil,
        natDegree_zero]
      rfl
  | some lead =>
      have hzero := isZero_eq_false_iff.1 (h lead (mem_of_leadingTerm? hlead))
      rw [degree_of_leadingTerm? hlead,
        natDegree_eq_of_degree_eq_some (degree_toPolynomial hlead hzero)]

theorem degree_prune_eq_natDegree (p : Poly ℚ) :
    p.prune.degree = p.toPolynomial.natDegree := by
  rw [degree_eq_natDegree (zeroFree_prune p), toPolynomial_prune]

/-- Degrees add up in a product, unless a factor is zero and the product with it. -/
theorem degree_multiply (p q : Poly ℚ) :
    (p.multiply q).degree
      = if p.isZero || q.isZero then 0 else p.prune.degree + q.prune.degree := by
  rw [degree_eq_natDegree (zeroFree_multiply p q), toPolynomial_multiply]
  split
  · rename_i hzero
    rw [Bool.or_eq_true, ← toPolynomial_eq_zero_iff, ← toPolynomial_eq_zero_iff] at hzero
    rw [mul_eq_zero.2 hzero, natDegree_zero]
  · rename_i hzero
    rw [Bool.or_eq_true, not_or, ← toPolynomial_eq_zero_iff, ← toPolynomial_eq_zero_iff] at hzero
    rw [natDegree_mul hzero.1 hzero.2, degree_prune_eq_natDegree, degree_prune_eq_natDegree]

/-- Values of results are computed from values of operands, sums and products obey
    the laws of a commutative ring as stored terms, and degrees add up in a
    product. -/
theorem arithmetic_obeys_ring_laws (p q r : Poly ℚ) (x : ℚ) :
    ((p.add q).evaluate x = p.evaluate x + q.evaluate x
      ∧ (p.subtract q).evaluate x = p.evaluate x - q.evaluate x
      ∧ (p.multiply q).evaluate x = p.evaluate x * q.evaluate x
      ∧ p.neg.evaluate x = -p.evaluate x
      ∧ p.prune.evaluate x = p.evaluate x)
    ∧ (p.add q = q.add p ∧ (p.add q).add r = p.add (q.add r))
    ∧ (p.multiply q = q.multiply p
      ∧ (p.multiply q).multiply r = p.multiply (q.multiply r))
    ∧ (p.multiply (q.add r) = (p.multiply q).add (p.multiply r)
      ∧ (q.add r).multiply p = (q.multiply p).add (r.multiply p))
    ∧ (p.multiply q).degree
        = if p.isZero || q.isZero then 0 else p.prune.degree + q.prune.degree := by
  refine ⟨⟨evaluate_add p q x, evaluate_subtract p q x, evaluate_multiply p q x,
    evaluate_neg p x, evaluate_prune p x⟩, ⟨add_commutes p q, add_associates p q r⟩,
    ⟨multiply_commutes p q, multiply_associates p q r⟩, ⟨multiply_distributes p q r, ?_⟩,
    degree_multiply p q⟩
  -- The other side follows by exchanging the factors of all three products.
  rw [multiply_commutes, multiply_distributes, multiply_commutes p q, multiply_commutes p r]

end Poly

end PolyCalc
