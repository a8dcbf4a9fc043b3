import PolyCalc.Calculator.Basic
import PolyCalc.CommandLine.Arguments
import PolyCalc.Journal
import PolyCalc.Poly.Table

/-!
# Runs of the Command Line

What one run does, in this order: it makes sure that the second operand is
there, takes the settings, starts the journal, calculates, shows the result and
its table, and saves the result. Each of the first four can end the run, and a
run that ends before the journal is started has touched no file. A result that
cannot be saved has been shown all the same.

Understanding a command line is left to a library, and so are the texts that answer
one which asks for no calculation, and the layout of records. A run takes all of
these from an `Interface`, and what is proved of runs holds for every interface. The
standard one reads arguments by `Arguments.parse`; its texts are its own, and no
other program's.

## Main definitions

* `ExitStatus`: How a run ended.
* `Interface`: What a run leaves to libraries.
* `Interface.standard`: The interface of the program.
* `calculateFor`: The run for a request.
* `execute`: The run for a list of arguments.
-/

namespace PolyCalc

/-- How a run ended. -/
inductive ExitStatus where
  | success
  | failure
  /-- The command line was not understood. -/
  | misuse
deriving DecidableEq, Repr

/-- The status as a number. -/
def ExitStatus.code : ExitStatus → Nat
  | success => 0
  | failure => 1
  | misuse => 2

/-- What a run leaves to libraries. -/
structure Interface where
  /-- What a command line asks for, or what is said about one that is not understood. -/
  parse : List String → Except String Invocation
  /-- What is said to a request for help. -/
  help : String
  /-- What is said to a request for the version. -/
  version : String
  /-- How records are written. -/
  layout : Journal.Layout

/-- How the command line is written. -/
def usage : String :=
  "usage: OPERATION FIRST [SECOND] [-c|--config FILE] [-s|--save] [-t|--table]"

/-- The interface of the program. -/
def Interface.standard : Interface where
  parse arguments := (Arguments.parse arguments).mapError fun fault =>
    "error: " ++ fault.message ++ "\n\n" ++ usage
  help := usage
  version := "polynomial calculator 0.1.0"
  layout := Journal.line

variable {m : Type → Type} [Monad m] [Host m]

/-- The settings of a request: those of its file, or the defaults. -/
def settingsFor (r : Request) : m (Except SettingsFault Settings) :=
  match r.config with
  | none => pure (.ok {})
  | some path => Settings.load path

/-- Shows an outcome and, if asked for, the table of its terms. -/
def showOutcome (r : Request) (outcome : Outcome) : m Unit := do
  printLine .output outcome.message
  if r.table then
    if let some p := outcome.polynomial? then
      printLine .output p.table.text

/-- Saves the last result if asked to. -/
def saveFor (r : Request) (journal : Option Journal) (c : Calculator) : m ExitStatus := do
  if r.save then
    let (answer, events) ← c.save
    recordIn journal events
    match answer with
    | .ok true =>
      printLine .output ("Result saved to " ++ c.resultsFile)
      return .success
    | .ok false =>
      printLine .output "No result to save."
      return .success
    | .error cause =>
      printLine .error ("Error saving result to file: " ++ cause.message)
      return .failure
  else return .success

/-- The run for a request, with records in a layout. -/
def calculateFor (layout : Journal.Layout) (r : Request) : m ExitStatus := do
  match r.second with
  | none =>
    printLine .error
      (r.operation.name ++ " needs " ++ r.operation.secondOperand
        ++ " after the first polynomial")
    return .failure
  | some second =>
    match ← settingsFor r with
    | .error fault =>
      printLine .error fault.message
      return .failure
    | .ok settings =>
      let journal ← Journal.start settings false layout
      let reply := (Calculator.ofSettings settings).run r.operation r.first second
      recordIn journal reply.events
      match reply.answer with
      | .error fault =>
        recordIn journal [.failed fault]
        printLine .error fault.message
        return .failure
      | .ok outcome =>
        showOutcome r outcome
        saveFor r journal reply.after

/-- The run for a list of arguments. -/
def execute (arguments : List String) (interface : Interface := .standard) : m ExitStatus := do
  match interface.parse arguments with
  | .error refusal =>
    printLine .error refusal
    return .misuse
  | .ok .help =>
    printLine .output interface.help
    return .success
  | .ok .version =>
    printLine .output interface.version
    return .success
  | .ok (.calculation r) => calculateFor interface.layout r

end PolyCalc
