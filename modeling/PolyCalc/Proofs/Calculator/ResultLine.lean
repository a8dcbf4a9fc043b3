import PolyCalc.Calculator.Outcome
import PolyCalc.Proofs.Poly.Words

/-!
# Result Lines Are Lines

What is kept of an outcome is one line: no double and no polynomial has a line break
in its text. There is none among the characters that doubles and terms are written
with, and separators add nothing but blanks and plus signs. This holds for all
doubles and all polynomials, readable or not.

## Theorems

* `Binary64.newline_not_mem_decimalChars`: The text of a double.
* `Poly.newline_not_mem_text`: The text of a polynomial.
* `Outcome.newline_not_mem_resultLine`: The line that is kept.
-/

namespace PolyCalc

/-! ## Doubles -/

theorem Binary64.newline_not_mem_decimalChars (x : Float) : '\n' ∉ decimalChars x :=
  not_mem_of_all_isWritten (all_isWritten_decimalChars x) (by decide)

/-! ## Polynomials -/

theorem Term.newline_not_mem_separator (t : Term Float) : '\n' ∉ t.separator := by
  rw [separator]
  split
  · decide
  · decide

namespace Poly

theorem newline_not_mem_text (p : Poly Float) : '\n' ∉ p.text.toList := by
  have hterm (t : Term Float) : '\n' ∉ t.chars := t.not_mem_chars (by decide)
  rw [text, String.toList_ofList, chars]
  split
  · decide
  · refine List.not_mem_append (hterm _) fun hmem => ?_
    rcases List.mem_flatMap.1 hmem with ⟨t, -, ht⟩
    exact List.not_mem_append t.newline_not_mem_separator (hterm t) ht

end Poly

/-! ## Outcomes -/

namespace Outcome

theorem newline_not_mem_line {result : String} (h : '\n' ∉ result.toList) :
    '\n' ∉ (line result).toList := by
  rw [line, String.toList_append]
  exact List.not_mem_append (by decide) h

/-- The line that is kept of an outcome has no line break in it. -/
theorem newline_not_mem_resultLine (outcome : Outcome) : '\n' ∉ outcome.resultLine.toList := by
  cases outcome with
  | polynomial p => exact newline_not_mem_line p.newline_not_mem_text
  | division d => exact newline_not_mem_line d.quotient.newline_not_mem_text
  | value x =>
      refine newline_not_mem_line ?_
      rw [Binary64.decimalText, String.toList_ofList]
      exact Binary64.newline_not_mem_decimalChars x

end Outcome

end PolyCalc
