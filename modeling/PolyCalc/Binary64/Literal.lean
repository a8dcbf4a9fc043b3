import PolyCalc.Binary64.Rounding

/-!
# Reading Numbers

A written number is an optional sign followed by decimal digits with an
optional point and an optional power of ten, at least one digit standing before
or after the point; or it is one of the words for infinity and for the absence
of a number, in any case. There is nothing else, and no blank, in it. The value
is the double nearest to the number written, so a number too large for a
double reads as infinity and one too small as zero.

## Main definitions

* `digitsValue`: The natural number that a run of digits denotes.
* `readMagnitude`: A written number without its sign.
* `readNumber`: A written number.
-/

namespace PolyCalc

namespace Binary64

/-- The value of a run of decimal digits. -/
def digitsValue (digits : List Char) : Nat := Nat.ofDigitChars 10 digits 0

/-- The power of ten at the end of a written number: nothing at all, or the
    letter `e`, an optional sign and at least one digit up to the end. -/
def readScale : List Char → Option Int
  | [] => some 0
  | c :: rest =>
    if c = 'e' ∨ c = 'E' then
      match rest with
      | '-' :: digits => (magnitude digits).map fun n => -(n : Int)
      | '+' :: digits => (magnitude digits).map fun n => (n : Int)
      | digits => (magnitude digits).map fun n => (n : Int)
    else none
where
  /-- A run of at least one digit and nothing else. -/
  magnitude (digits : List Char) : Option Nat :=
    if digits ≠ [] ∧ digits.all Char.isDigit then some (digitsValue digits) else none

/-- The decimal number that a text without a sign denotes. -/
def readDecimal (text : List Char) : Option Decimal :=
  let whole := text.takeWhile Char.isDigit
  let rest := text.dropWhile Char.isDigit
  let (fraction, tail) :=
    match rest with
    | '.' :: after => (after.takeWhile Char.isDigit, after.dropWhile Char.isDigit)
    | _ => ([], rest)
  if whole ++ fraction = [] then none
  else (readScale tail).map fun scale =>
    ⟨digitsValue (whole ++ fraction), scale - fraction.length⟩

/-- The value of a written number without a sign. -/
def readMagnitude (text : List Char) : Option Float :=
  let word := text.map Char.toLower
  if word = "inf".toList ∨ word = "infinity".toList then some infinity
  else if word = "nan".toList then some (0 / 0)
  else (readDecimal text).map Decimal.nearest

/-- The value of a written number. -/
def readNumber : List Char → Option Float
  | '-' :: text => (readMagnitude text).map fun x => -x
  | '+' :: text => readMagnitude text
  | text => readMagnitude text

end Binary64

end PolyCalc
