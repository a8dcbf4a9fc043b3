import PolyCalc.Poly.Basic

/-!
# Sums, Differences and Products

The ring operations on sparse polynomials. Each of them accumulates term by
term and prunes the result, so a sum, a difference and a product store no zero
term even where their operands do. Only the negative is taken coefficient by
coefficient with nothing removed.

The order in which coefficients meet is fixed, because sums of doubles depend
on it: the terms of the right operand are accumulated onto the left one in
ascending order, and a product runs over the terms of the left operand in
ascending order and, for each, over those of the right one.

## Main definitions

* `Poly.neg`, `Poly.add`, `Poly.subtract`, `Poly.multiply`: The operations.
* `Poly.evaluate`: The value of a polynomial at a point.
-/

namespace PolyCalc

namespace Poly

variable {K : Type} [Coefficient K]

/-- The polynomial with every stored coefficient negated. -/
def neg (p : Poly K) : Poly K := p.map fun c => -c

/-- The sum of two polynomials. -/
def add (p q : Poly K) : Poly K := (p.accumulateAll q.terms).prune

/-- The difference of two polynomials. -/
def subtract (p q : Poly K) : Poly K := (p.accumulateAll q.neg.terms).prune

/-- The products of one term with each term of a list, in the list's order. -/
def termProducts (t : Term K) (terms : List (Term K)) : List (Term K) :=
  terms.map fun s => ⟨t.exponent + s.exponent, t.coefficient * s.coefficient⟩

/-- The products of all pairs of terms, the left operand's terms in the outer
    and the right operand's in the inner place. -/
def products (p q : Poly K) : List (Term K) :=
  p.terms.flatMap fun t => termProducts t q.terms

/-- The product of two polynomials. -/
def multiply (p q : Poly K) : Poly K := (ofTerms (p.products q)).prune

/-- The value at `x`: the sum of the values of the terms, by ascending
    exponent. -/
def evaluate (p : Poly K) (x : K) : K :=
  (p.terms.map fun t => t.coefficient * Coefficient.power x t.exponent).foldl
    (fun sum value => sum + value) Coefficient.emptySum

/-- Equality of stored exponents and of coefficients, by the equality of
    coefficients. For doubles the two zeros are equal and nothing equals the
    absence of a number. -/
def equal [BEq K] (p q : Poly K) : Bool :=
  p.exponents == q.exponents
    && (p.terms.zip q.terms).all fun (s, t) => s.coefficient == t.coefficient

end Poly

end PolyCalc
