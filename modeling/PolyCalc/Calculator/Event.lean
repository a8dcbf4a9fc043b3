import PolyCalc.Calculator.Operation
import PolyCalc.Calculator.Outcome
import PolyCalc.Fault
import PolyCalc.FileError
import PolyCalc.Settings.Verbosity

/-!
# Events

What happens in a session, as it is told to a journal. Calculations do not
write to a journal: they return the events in their order, and whoever runs
them records what the settings ask for.

## Main definitions

* `Event`: The events.
* `Event.severity`: How bad an event is.
* `Event.message`: An event in words.
-/

namespace PolyCalc

/-- What happens in a session. -/
inductive Event where
  /-- A journal is kept from here on. -/
  | journalStarted (verbosity : Verbosity)
  /-- The text of a polynomial operand is faulty. -/
  | formatFault (fault : FormatFault)
  /-- A polynomial operand is rejected. -/
  | operandRejected (operand : Operand) (text : String)
  /-- The text given as the value of `x` is rejected. -/
  | valueRejected (text : String)
  /-- The text of the divisor denotes a zero polynomial. -/
  | divisorRejected (text : String)
  /-- A step of a division is made. -/
  | divisionStep (step : DivisionStep Float)
  /-- A calculation has succeeded. -/
  | calculated (operation : Operation) (outcome : Outcome)
  /-- There is no result to save. -/
  | nothingToSave
  /-- The results file cannot be appended to. -/
  | saveFailed (cause : FileError)
  /-- The last result is saved. -/
  | saved (file : String)
  /-- A calculation has failed. -/
  | failed (fault : Fault)

namespace Event

/-- How bad an event is. -/
def severity : Event → Severity
  | failed _ => .error
  | formatFault _ | operandRejected _ _ | valueRejected _ | divisorRejected _ => .warn
  | nothingToSave | saveFailed _ => .warn
  | journalStarted _ | calculated _ _ | saved _ => .info
  | divisionStep _ => .debug

/-- A degree in words, where there may be none. -/
def degreeText : Option Nat → String
  | none => "None"
  | some degree => "Some(" ++ toString degree ++ ")"

/-- The report on a rejected polynomial operand. -/
def rejection (operand : Operand) (text : String) : String :=
  "Invalid polynomial input for " ++ operand.label ++ ": " ++ text

/-- An event in words. -/
def message : Event → String
  | journalStarted verbosity => "logging started with level " ++ verbosity.name
  | formatFault fault => "Parsing error: " ++ (Fault.format fault).message
  | operandRejected operand text => rejection operand text
  | valueRejected text => "Invalid input for value: " ++ text
  | divisorRejected text =>
    rejection .second text ++ " (" ++ Fault.divisionByZero.message ++ ")"
  | divisionStep step =>
    "division step: quotient term " ++ Binary64.decimalText step.quotientTerm.coefficient
      ++ "x^" ++ toString step.quotientTerm.exponent
      ++ ", remainder degree " ++ toString step.degreeBefore
      ++ " -> " ++ degreeText step.degreeAfter
  | calculated operation outcome => operation.name ++ ": " ++ outcome.message
  | nothingToSave => "No result to save"
  | saveFailed cause => "Error writing to file: " ++ cause.message
  | saved file => "Result saved to " ++ file
  | failed fault => fault.message

/-- Where an event comes from, as a journal names it. Only events for the
    analysis of a calculation have a place named. -/
def origin (event : Event) : String :=
  if event.severity = .debug then "(1) RustedPoly::polynomial::poly_engine: " else ""

end Event

end PolyCalc
