/-!
# Faults

What can go wrong with a calculation. There are three kinds: a text is not a
polynomial, an operand of an operation could not be had, and a division has a
zero divisor. Each fault is kept as its cause, and its wording is in one place.

## Main definitions

* `FormatFault`: Why a text is not a polynomial.
* `Operand`: The polynomial operands of an operation.
* `OperandFault`: Why an operand could not be had.
* `Fault`: Why a calculation failed.
* `Fault.message`: What the user is told.
-/

namespace PolyCalc

/-- Why a text is not a polynomial. -/
inductive FormatFault where
  /-- There is nothing in the text but, possibly, a sign. -/
  | noTerms
  /-- No term can be read from the rest of the text. -/
  | invalidCharacters (rest : String)
  /-- A coefficient is not a number. -/
  | invalidCoefficient (text : String)
  /-- An exponent is not a number within the limit for written exponents. -/
  | exponentOutOfRange (text : String)
deriving DecidableEq, Repr

/-- The cause of a format fault. -/
def FormatFault.cause : FormatFault → String
  | .noTerms => "no valid terms found"
  | .invalidCharacters rest => "invalid characters at '" ++ rest ++ "'"
  | .invalidCoefficient text => "invalid coefficient '" ++ text ++ "'"
  | .exponentOutOfRange text => "exponent out of range '" ++ text ++ "'"

/-- The polynomial operands of an operation. -/
inductive Operand where
  | first
  | second
deriving DecidableEq, Repr

/-- What an operand is called in messages. -/
def Operand.label : Operand → String
  | .first => "Polynomial 1"
  | .second => "Polynomial 2"

/-- Why an operand could not be had. -/
inductive OperandFault where
  /-- The text of a polynomial operand is faulty. -/
  | polynomial (operand : Operand) (fault : FormatFault)
  /-- The text given as the value of `x`, without the blanks around it, is not a
      number. -/
  | value (text : String)
deriving DecidableEq, Repr

/-- The cause of an operand fault. -/
def OperandFault.cause : OperandFault → String
  | .polynomial operand fault => operand.label ++ ": " ++ fault.cause
  | .value text => "value: '" ++ text ++ "' is not a number"

/-- Why a calculation failed. -/
inductive Fault where
  | format (fault : FormatFault)
  | invalidOperand (fault : OperandFault)
  | divisionByZero
deriving DecidableEq, Repr

namespace Fault

/-- The cause of a fault, without its kind. -/
def cause : Fault → String
  | format fault => fault.cause
  | invalidOperand fault => fault.cause
  | divisionByZero => "divisor has no non-zero terms"

/-- The kind of a fault in words. -/
def kindText : Fault → String
  | format _ => "Invalid polynomial format"
  | invalidOperand _ => "Invalid operand"
  | divisionByZero => "Division by zero polynomial"

/-- What the user is told. -/
def message (fault : Fault) : String := fault.kindText ++ ": " ++ fault.cause

end Fault

end PolyCalc
