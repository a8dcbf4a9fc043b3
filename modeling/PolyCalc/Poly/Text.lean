import PolyCalc.Binary64.Shortest
import PolyCalc.Poly.Basic

/-!
# The Text of a Polynomial

A polynomial is written with its highest exponent first and without its zero
terms. A coefficient one is left out before `x`, and only that one: minus one
is written. Terms are joined by a plus sign between blanks when the later
coefficient is positive and by a blank alone otherwise, since a negative
coefficient brings its own sign; a coefficient that is not a number is not
positive. A polynomial without a term to write is written as `0`.

## Main definitions

* `Term.chars`: The characters of a term.
* `Poly.chars`: The characters of a polynomial.
* `Poly.text`: The text of a polynomial.
-/

namespace PolyCalc

namespace Term

/-- The power of `x` in a term: nothing for a constant, and no exponent where it
    is one. -/
def powerChars : Nat → List Char
  | 0 => []
  | 1 => ['x']
  | e => 'x' :: '^' :: Nat.toDigits 10 e

/-- The characters of a term. -/
def chars (t : Term Float) : List Char :=
  if t.exponent ≠ 0 ∧ t.coefficient == 1 then powerChars t.exponent
  else Binary64.decimalChars t.coefficient ++ powerChars t.exponent

/-- What separates a term from the one written before it. -/
def separator (t : Term Float) : List Char :=
  if 0 < t.coefficient then [' ', '+', ' '] else [' ']

end Term

namespace Poly

/-- The terms that are written, in the order in which they are. -/
def writtenTerms (p : Poly Float) : List (Term Float) := p.prune.terms.reverse

/-- The characters of a polynomial. -/
def chars (p : Poly Float) : List Char :=
  match p.writtenTerms with
  | [] => ['0']
  | first :: rest => first.chars ++ rest.flatMap fun t => t.separator ++ t.chars

/-- The text of a polynomial. -/
def text (p : Poly Float) : String := String.ofList p.chars

end Poly

end PolyCalc
