import PolyCalc.Calculator.Event
import PolyCalc.Expression.Parser
import PolyCalc.Host
import PolyCalc.Settings.Basic

/-!
# The Calculator

A calculator takes an operation and the texts of its two operands, and keeps the
line of the last result. The first operand is read before the second, so its
fault is the one reported when both are faulty, and a fault of either comes
before the division by zero. A failed calculation leaves the calculator as it
was.

`calculate` says what is computed and what is told on the way, without regard
to any calculator. A calculator adds its memory to that, and saving appends the
line it remembers to the results file.

## Main definitions

* `Rejection`: A fault with the events that report it.
* `calculate`: The outcome of an operation on two texts.
* `Calculator`: The results file and the line of the last result.
* `Calculator.run`: A calculation.
* `Calculator.save`: The last result saved.
-/

namespace PolyCalc

/-- A fault together with the events that report it. -/
structure Rejection where
  fault : Fault
  events : List Event

/-- The polynomial that the text of an operand denotes. -/
def readOperand (operand : Operand) (text : String) : Except Rejection (Poly Float) :=
  match Expression.parse text with
  | .ok p => pure p
  | .error fault =>
    throw
      { fault := .invalidOperand (.polynomial operand fault)
        events := [.formatFault fault, .operandRejected operand text] }

/-- The number that a text denotes, the blanks around it apart. -/
def readValue (text : String) : Except Rejection Float :=
  let trimmed := Text.trim text.toList
  match Binary64.readNumber trimmed with
  | some x => pure x
  | none =>
    throw
      { fault := .invalidOperand (.value (String.ofList trimmed))
        events := [.valueRejected text] }

/-- The outcome of an operation on two texts, with the events of its steps. -/
def calculate (operation : Operation) (first second : String) :
    Except Rejection (Outcome × List Event) := do
  let p ← readOperand .first first
  match operation with
  | .add => return (.polynomial (p.add (← readOperand .second second)), [])
  | .subtract => return (.polynomial (p.subtract (← readOperand .second second)), [])
  | .multiply => return (.polynomial (p.multiply (← readOperand .second second)), [])
  | .divide =>
    let divisor ← readOperand .second second
    match p.divide divisor with
    | none => throw ⟨.divisionByZero, [.divisorRejected second]⟩
    | some d => return (.division d, d.steps.map .divisionStep)
  | .evaluate => return (.value (p.evaluate (← readValue second)), [])

/-- A calculator: the file that results are saved to, and the line of the last
    result. -/
structure Calculator where
  resultsFile : String
  lastResult : Option String := none
deriving DecidableEq, Repr

/-- What a calculation answered, and the calculator after it. -/
structure Reply where
  answer : Except Fault Outcome
  events : List Event
  after : Calculator

namespace Calculator

/-- A calculator with the given settings. -/
def ofSettings (s : Settings) : Calculator := { resultsFile := s.resultsFile }

/-- A calculation. -/
def run (c : Calculator) (operation : Operation) (first second : String) : Reply :=
  match calculate operation first second with
  | .error rejection => ⟨.error rejection.fault, rejection.events, c⟩
  | .ok (outcome, events) =>
    { answer := .ok outcome
      events := events ++ [.calculated operation outcome]
      after := { c with lastResult := some outcome.resultLine } }

/-- Appends the line of the last result to the results file. The answer is
    `false` when there is no result. -/
def save {m : Type → Type} [Monad m] [Host m] (c : Calculator) :
    m (Except FileError Bool × List Event) := do
  match c.lastResult with
  | none => return (.ok false, [.nothingToSave])
  | some line =>
    match ← appendLine c.resultsFile line with
    | .error cause => return (.error cause, [.saveFailed cause])
    | .ok () => return (.ok true, [.saved c.resultsFile])

end Calculator

end PolyCalc
