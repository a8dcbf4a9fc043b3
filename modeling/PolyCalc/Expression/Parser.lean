import PolyCalc.Expression.Tokens
import PolyCalc.Text.Blank

/-!
# From Text to Polynomial

Blanks mean nothing in the text of a polynomial, not even between the digits of
a number: they are removed before anything is read. The terms are then read and
evaluated from left to right, and the first fault is reported. Terms with the
same exponent are summed, and a sum that is zero is kept as a term. A polynomial
that no term is stored in is refused in the end.

## Main definitions

* `parse`: The polynomial of a text.
-/

namespace PolyCalc

namespace Expression

/-- The polynomial of a text without blanks. -/
def parseStripped (s : List Char) : Except FormatFault (Poly Float) := do
  let raw ← tokenize s
  let terms ← raw.mapM RawTerm.value
  let p := Poly.ofTerms terms
  if p.isEmpty then throw .noTerms
  return p

/-- The polynomial of a text. -/
def parse (text : String) : Except FormatFault (Poly Float) :=
  parseStripped (Text.strip text.toList)

end Expression

end PolyCalc
