import PolyCalc.Binary64.Literal
import PolyCalc.Fault
import PolyCalc.Poly.Basic

/-!
# Written Terms

A term as it is spelled in a text, before anything is computed from it. Its
shape says which of the three spellings of the grammar it has, and the other
fields hold the characters of its parts. The fields can be filled in without
regard to the grammar; `WellFormed` says which fillings the grammar produces,
and `chars` spells them out again.

A part left out has a default: no coefficient means one, no exponent means one.
A free-standing number has the exponent zero, whatever stands in the field.
Written exponents are limited to 32 bits, so that the exponents of all products
of two written polynomials are far below the limit of 64 bits.

## Main definitions

* `TermShape`: The three spellings of a term.
* `RawTerm`: A term as it is spelled.
* `RawTerm.chars`: The spelling of a term.
* `RawTerm.WellFormed`: The terms of the grammar.
* `RawTerm.value`: The exponent and the coefficient of a term.
-/

namespace PolyCalc

/-- The spellings of a term. -/
inductive TermShape where
  /-- A coefficient before `x`, as in `3x^2`. -/
  | scaled
  /-- A number alone. -/
  | constant
  /-- An `x` without a coefficient, as in `-x^3`. -/
  | bare
deriving DecidableEq, Repr

/-- A term as it is spelled. -/
structure RawTerm where
  sign : Option Char
  shape : TermShape
  coefficient : Option (List Char)
  /-- The digits of the exponent, without the caret. -/
  exponent : Option (List Char)
deriving DecidableEq, Repr

/-- A run of decimal digits, at least one. -/
def IsDigits (s : List Char) : Prop := s ≠ [] ∧ ∀ c ∈ s, c.isDigit = true

/-- A number without a sign: digits, digits with a point behind or among them,
    or a point with digits behind it. -/
def IsUnsignedNumber (s : List Char) : Prop :=
  IsDigits s
    ∨ (∃ whole fraction, IsDigits whole ∧ (fraction = [] ∨ IsDigits fraction)
        ∧ s = whole ++ '.' :: fraction)
    ∨ ∃ fraction, IsDigits fraction ∧ s = '.' :: fraction

/-- The greatest exponent that can be written. -/
def maxWrittenExponent : Nat := 0xFFFFFFFF

/-- The value of a written exponent: digits, possibly behind a plus sign, that
    denote a number within the limit. -/
def readExponent (text : List Char) : Option Nat :=
  let digits := match text with
    | '+' :: rest => rest
    | _ => text
  if digits ≠ [] ∧ digits.all Char.isDigit
      ∧ Binary64.digitsValue digits ≤ maxWrittenExponent then
    some (Binary64.digitsValue digits)
  else none

namespace RawTerm

/-- The spelling of a term. A free-standing number has no `x`. -/
def chars (t : RawTerm) : List Char :=
  t.sign.toList ++ t.coefficient.getD []
    ++ if t.shape = .constant then []
       else 'x' :: (t.exponent.map fun digits => '^' :: digits).getD []

/-- The terms of the grammar: the sign is a plus or a minus, the coefficient is
    there exactly where the shape asks for one, and the exponent is a run of
    digits and never there for a free-standing number. -/
structure WellFormed (t : RawTerm) : Prop where
  sign : t.sign = none ∨ t.sign = some '+' ∨ t.sign = some '-'
  coefficient :
    match t.shape with
    | .bare => t.coefficient = none
    | _ => ∃ s, t.coefficient = some s ∧ IsUnsignedNumber s
  exponent :
    match t.shape with
    | .constant => t.exponent = none
    | _ => t.exponent = none ∨ ∃ s, t.exponent = some s ∧ IsDigits s

/-- The coefficient of a term: its number, or one, negated behind a minus. -/
def coefficientValue (t : RawTerm) : Except FormatFault Float := do
  let magnitude ← match t.coefficient with
    | none => pure 1
    | some digits =>
      match Binary64.readNumber digits with
      | none => throw (.invalidCoefficient (String.ofList digits))
      | some x => pure x
  return if t.sign = some '-' then -magnitude else magnitude

/-- The exponent of a term. -/
def exponentValue (t : RawTerm) : Except FormatFault Nat :=
  match t.shape, t.exponent with
  | .constant, _ => pure 0
  | _, none => pure 1
  | _, some digits =>
    match readExponent digits with
    | none => throw (.exponentOutOfRange (String.ofList digits))
    | some e => pure e

/-- The term that a spelling denotes. The coefficient is read first, so its
    fault is the one reported when both parts are faulty. -/
def value (t : RawTerm) : Except FormatFault (Term Float) := do
  let coefficient ← t.coefficientValue
  let exponent ← t.exponentValue
  return ⟨exponent, coefficient⟩

end RawTerm

end PolyCalc
