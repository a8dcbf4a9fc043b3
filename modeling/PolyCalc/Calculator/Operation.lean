/-!
# Operations

The operations that the calculator offers, each on a first polynomial and a
second operand, which is a polynomial or the value of `x`.

## Main definitions

* `Operation`: The operations.
* `Operation.ofName?`: The operation of a name, in any case.
-/

namespace PolyCalc

/-- The operations of the calculator. -/
inductive Operation where
  | add
  | subtract
  | multiply
  | divide
  | evaluate
deriving DecidableEq, Repr

namespace Operation

/-- The operations in the order in which they are offered. -/
def all : List Operation := [add, subtract, multiply, divide, evaluate]

/-- The name of an operation. -/
def name : Operation → String
  | add => "Add"
  | subtract => "Subtract"
  | multiply => "Multiply"
  | divide => "Divide"
  | evaluate => "Evaluate"

/-- The position of an operation among those offered. -/
def index (op : Operation) : Nat := all.idxOf op

/-- A name without regard to the case of its ASCII letters. -/
def foldCase (name : String) : List Char := name.toList.map Char.toLower

/-- The operation of a name, without regard to the case of ASCII letters. -/
def ofName? (name : String) : Option Operation :=
  all.find? fun op => foldCase op.name = foldCase name

/-- Is the second operand a number? -/
def takesValue (op : Operation) : Bool := op = evaluate

/-- What the second operand is. -/
def secondOperand (op : Operation) : String :=
  if op.takesValue then "the value of x" else "a second polynomial"

end Operation

end PolyCalc
