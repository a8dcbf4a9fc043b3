import PolyCalc.Poly.Text
import PolyCalc.Proofs.Binary64.Written
import PolyCalc.Proofs.Expression.Alphabet
import PolyCalc.Proofs.Text.Lines

/-!
# The Words of a Text

The text of a polynomial falls into words at its blanks. A word is a term or a plus
sign between two terms, and the two are easily told apart: a term is written with
digits, points, minus signs, the letters of the doubles that are no numbers, and the
`x` with its caret, but never with a plus sign. So the words that are no plus signs
are the terms that were written, one by one and in their order. This holds for all
polynomials, also for those with a text that cannot be read back.

## Main definitions

* `isWritten`: The characters that terms are written with.
* `Text.addends`: The words of a text apart from plus signs.

## Theorems

* `Binary64.all_isWritten_decimalChars`: Doubles are written with them.
* `Term.all_isWritten_chars`: So are terms.
* `Poly.addends_text`: The words of a text are the terms of the polynomial.
-/

namespace PolyCalc

/-- The characters that terms are written with. -/
def isWritten (c : Char) : Bool := Expression.prolongsNumber c || "-x^NaNinf".toList.contains c

theorem isWritten_of_prolongsNumber {c : Char} (h : Expression.prolongsNumber c = true) :
    isWritten c = true := by
  rw [isWritten, h]
  rfl

theorem all_isWritten_append {s t : List Char} (hs : s.all isWritten = true)
    (ht : t.all isWritten = true) : (s ++ t).all isWritten = true := by
  rw [List.all_append, hs, ht, Bool.and_self]

/-- A text with another character in it is no part of a term. -/
theorem not_mem_of_all_isWritten {text : List Char} (h : text.all isWritten = true) {c : Char}
    (hc : isWritten c = false) : c ∉ text := by
  intro hmem
  rw [List.all_eq_true.1 h c hmem] at hc
  cases hc

/-! ## Doubles -/

namespace Binary64

theorem all_isWritten_signChars (sign : Float.Model.UnpackedFloat.Sign) :
    (signChars sign).all isWritten = true := by
  cases sign with
  | negative => rfl
  | positive => rfl

theorem all_isWritten_decimalChars (x : Float) : (decimalChars x).all isWritten = true := by
  rw [decimalChars]
  cases x.toModel.unpack with
  | notANumber => decide
  | infinity sign => exact all_isWritten_append (all_isWritten_signChars sign) (by decide)
  | zero sign => exact all_isWritten_append (all_isWritten_signChars sign) (by decide)
  | finite sign m e hpos =>
      refine all_isWritten_append (all_isWritten_signChars sign) (List.all_eq_true.2 fun c hc => ?_)
      exact isWritten_of_prolongsNumber
        (Expression.prolongsNumber_of_isUnsignedNumber (isUnsignedNumber_chars _) c hc)

end Binary64

/-! ## Terms -/

namespace Term

theorem all_isWritten_powerChars (e : Nat) : (powerChars e).all isWritten = true := by
  match e with
  | 0 => rfl
  | 1 => decide
  | e + 2 =>
      have hdigits : (Nat.toDigits 10 (e + 2)).all isWritten = true := by
        refine List.all_eq_true.2 fun c hc => ?_
        exact isWritten_of_prolongsNumber
          (Expression.prolongsNumber_of_isDigit ((Binary64.isDigits_toDigits _).2 c hc))
      exact all_isWritten_append (s := ['x', '^']) (by decide) hdigits

theorem all_isWritten_chars (t : Term Float) : t.chars.all isWritten = true := by
  rw [chars]
  split
  · exact all_isWritten_powerChars _
  · exact all_isWritten_append (Binary64.all_isWritten_decimalChars _) (all_isWritten_powerChars _)

/-- A character that terms are not written with is in no term. -/
theorem not_mem_chars {c : Char} (h : isWritten c = false) (t : Term Float) : c ∉ t.chars :=
  not_mem_of_all_isWritten t.all_isWritten_chars h

end Term

/-! ## Words -/

namespace Text

/-- The words of a text, the plus signs among them apart. -/
def addends (text : List Char) : List (List Char) :=
  (pieces ' ' text).filter fun word => word ≠ ['+']

theorem addends_append_cons (text rest : List Char) :
    addends (text ++ ' ' :: rest) = addends text ++ addends rest := by
  rw [addends, pieces_append_cons, List.filter_append, addends, addends]

theorem addends_chars (t : Term Float) : addends t.chars = [t.chars] := by
  have hblank : ' ' ∉ t.chars := Term.not_mem_chars (by decide) t
  have hplus : t.chars ≠ ['+'] := by
    intro heq
    exact Term.not_mem_chars (by decide : isWritten '+' = false) t (heq ▸ List.mem_singleton.2 rfl)
  rw [addends, pieces_of_not_mem hblank]
  simp [hplus]

/-- A separator ends a word, and the plus sign in it is not one of those counted. -/
theorem addends_append_separator (text : List Char) (t : Term Float) (rest : List Char) :
    addends (text ++ (t.separator ++ rest)) = addends text ++ addends rest := by
  unfold Term.separator
  split
  · have hplus : addends ['+'] = [] := by decide
    have hbehind := addends_append_cons ['+'] rest
    rw [hplus, List.nil_append] at hbehind
    exact (addends_append_cons text _).trans (congrArg (addends text ++ ·) hbehind)
  · exact addends_append_cons text rest

/-- Terms behind separators are words of their own. -/
theorem addends_append_flatMap (text : List Char) (terms : List (Term Float)) :
    addends (text ++ terms.flatMap fun t => t.separator ++ t.chars)
      = addends text ++ terms.map Term.chars := by
  induction terms generalizing text with
  | nil => simp
  | cons t terms ih =>
      have hassoc : text ++ (t :: terms).flatMap (fun t => t.separator ++ t.chars)
          = (text ++ (t.separator ++ t.chars))
            ++ terms.flatMap fun t => t.separator ++ t.chars := by
        simp
      rw [hassoc, ih, addends_append_separator, addends_chars, List.append_assoc]
      rfl

end Text

/-- The words of a text, plus signs apart, are the written terms in their order; only
    where there is none a zero is written. -/
theorem Poly.addends_text (p : Poly Float) :
    Text.addends p.text.toList
      = if p.writtenTerms = [] then [['0']] else p.writtenTerms.map Term.chars := by
  rw [text, String.toList_ofList, chars]
  cases hterms : p.writtenTerms with
  | nil => decide
  | cons first rest =>
      simp only
      rw [Text.addends_append_flatMap, Text.addends_chars, if_neg (List.cons_ne_nil _ _)]
      rfl

end PolyCalc
