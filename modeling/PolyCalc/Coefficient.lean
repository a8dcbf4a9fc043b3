import PolyCalc.Binary64.Power

/-!
# Coefficients

What a number must offer to be a coefficient: sums, negatives, products and
quotients, a zero for the terms that are absent, a test for zero, a power, and
the value that an empty sum has. Nothing is assumed about these operations.
Doubles are the coefficients that the calculator works with, and none of the
usual laws holds for them without reservation; rational numbers, for which all
of them hold, give the same algorithms their textbook meaning.

Two doubles are zero, and a sum over no terms starts from the negative one,
the only neutral element of the addition of doubles: any other start would turn
a lone `-0` into `0`.

## Main definitions

* `Coefficient`: The operations on coefficients.
-/

namespace PolyCalc

/-- The operations that polynomials need on their coefficients. -/
class Coefficient (K : Type) extends Add K, Neg K, Mul K, Div K where
  /-- The coefficient of an absent term. -/
  zero : K
  /-- The sum of no terms. -/
  emptySum : K
  /-- Is the coefficient a zero? -/
  isZero : K → Bool
  /-- The power of a value by an exponent. -/
  power : K → Nat → K

/-- Doubles: every operation rounds, and both zeros count as zero. -/
instance : Coefficient Float where
  zero := 0
  emptySum := -0
  isZero c := c == 0
  power := Binary64.power

/-- Rational numbers: every operation is exact. -/
instance : Coefficient Rat where
  zero := 0
  emptySum := 0
  isZero c := c == 0
  power x n := x ^ n

end PolyCalc
