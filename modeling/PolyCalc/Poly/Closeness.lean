import PolyCalc.Poly.Basic

/-!
# Approximate Equality

Two doubles are close by difference when they differ by at most a tolerance.
They are close by proportion when they are equal, or both finite and close by
difference, or both finite and differing by at most a fraction of the larger
magnitude. Equal infinities have no difference that is a number: they are close
by proportion and not by difference.

Polynomials are close when their coefficients are close at every exponent that
either of them stores, an absent coefficient being zero.

## Main definitions

* `closeBy`: Closeness by difference.
* `closeWithin`: Closeness by proportion.
* `Poly.closeBy`, `Poly.closeWithin`: The same of polynomials.
* `epsilon`: The distance from one to the next double.
-/

namespace PolyCalc

/-- The distance from one to the next double, the tolerance taken when none is
    given. -/
def epsilon : Float := Binary64.nearest 1 (1 <<< 52)

/-- Do two doubles differ by at most a tolerance? -/
def closeBy (tolerance x y : Float) : Bool := (x - y).abs ≤ tolerance

/-- The larger of two magnitudes. -/
def largerMagnitude (x y : Float) : Float :=
  if y.abs < x.abs then x.abs else y.abs

/-- Are two doubles equal, or finite and close by difference or by a fraction of
    the larger magnitude? -/
def closeWithin (tolerance fraction x y : Float) : Bool :=
  x == y
    || !x.isInf && !y.isInf
      && (closeBy tolerance x y || (x - y).abs ≤ largerMagnitude x y * fraction)

namespace Poly

/-- Does a relation hold between the coefficients at every exponent that one of
    the polynomials stores? -/
def allCoefficients (related : Float → Float → Bool) (p q : Poly Float) : Bool :=
  (p.exponents ++ q.exponents).all fun e => related (p.coefficient e) (q.coefficient e)

/-- Are all coefficients close by difference? -/
def closeBy (tolerance : Float) (p q : Poly Float) : Bool :=
  p.allCoefficients (PolyCalc.closeBy tolerance) q

/-- Are all coefficients close by proportion? -/
def closeWithin (tolerance fraction : Float) (p q : Poly Float) : Bool :=
  p.allCoefficients (PolyCalc.closeWithin tolerance fraction) q

end Poly

end PolyCalc
