import PolyCalc.Poly.Division
import PolyCalc.Poly.Text

/-!
# Outcomes

What a successful calculation yields: a polynomial, a division, or a value. The
user is shown one line about it, and one line is kept for saving. The two
differ only for a division that leaves a remainder: there the remainder is
shown and the quotient kept.

## Main definitions

* `Outcome`: The outcomes.
* `Outcome.message`: The line that is shown.
* `Outcome.resultLine`: The line that is kept.
* `Outcome.polynomial?`: The polynomial to show in a table.
-/

namespace PolyCalc

/-- What a successful calculation yields. -/
inductive Outcome where
  | polynomial (p : Poly Float)
  | division (d : Division Float)
  | value (x : Float)

namespace Outcome

/-- A result as a line. -/
def line (result : String) : String := "Result: " ++ result

/-- The line that is shown. -/
def message : Outcome → String
  | polynomial p => line p.text
  | division d =>
    if d.isExact then line d.quotient.text
    else "Polynomials do not divide evenly. Remainder: " ++ d.remainder.text
  | value x => line (Binary64.decimalText x)

/-- The line that is kept. -/
def resultLine : Outcome → String
  | polynomial p => line p.text
  | division d => line d.quotient.text
  | value x => line (Binary64.decimalText x)

/-- The polynomial to show in a table, if there is one. -/
def polynomial? : Outcome → Option (Poly Float)
  | polynomial p => some p
  | division d => some d.quotient
  | value _ => none

end Outcome

end PolyCalc
