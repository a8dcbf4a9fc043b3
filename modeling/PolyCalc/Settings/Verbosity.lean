import PolyCalc.Settings.Fault

/-!
# Verbosity

An event has a severity, and a journal a verbosity that says which severities
it records: none at all, or one and all that are worse.

The word for a verbosity is read in any case. Only the case of ASCII letters
matters for that: no other character has one of the letters of these words as
its lower case.

## Main definitions

* `Severity`: How bad an event is.
* `Verbosity`: Which events are recorded.
* `Verbosity.ofName`: The verbosity that a word stands for.
-/

namespace PolyCalc

/-- How bad an event is, the worst first. -/
inductive Severity where
  | error
  | warn
  | info
  | debug
deriving DecidableEq, Repr

namespace Severity

/-- The position of a severity, zero for the worst. -/
def rank : Severity → Nat
  | error => 0
  | warn => 1
  | info => 2
  | debug => 3

/-- The name of a severity. -/
def name : Severity → String
  | error => "ERROR"
  | warn => "WARN"
  | info => "INFO"
  | debug => "DEBUG"

end Severity

/-- Which events are recorded. -/
inductive Verbosity where
  | off
  /-- Those of a severity and of all worse ones. -/
  | upTo (severity : Severity)
deriving DecidableEq, Repr

namespace Verbosity

/-- Is an event of a severity recorded? -/
def admits : Verbosity → Severity → Bool
  | off, _ => false
  | upTo limit, severity => severity.rank ≤ limit.rank

/-- The name of a verbosity. -/
def name : Verbosity → String
  | off => "OFF"
  | upTo severity => severity.name

/-- The verbosity that a word stands for, in any case. -/
def ofName (word : String) : Except SettingsFault Verbosity :=
  let lower := word.toList.map Char.toLower
  if lower = "debug".toList then pure (upTo .debug)
  else if lower = "info".toList then pure (upTo .info)
  else if lower = "warn".toList then pure (upTo .warn)
  else if lower = "error".toList then pure (upTo .error)
  else if lower = "off".toList ∨ lower = "none".toList then pure off
  else throw (.unknownLevel word)

end Verbosity

end PolyCalc
