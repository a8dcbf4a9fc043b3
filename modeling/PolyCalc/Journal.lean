import PolyCalc.Calculator.Event
import PolyCalc.Host
import PolyCalc.Settings.Basic

/-!
# Journals

A journal records events as lines of text, on the console, in a file, or both.
The settings decide whether one is kept at all: nothing is touched when the
verbosity is off, a file that cannot be appended to is reported and done
without, and a journal with neither a console nor a file is none. Only one
journal can be kept at a time; when another one already is, the file is made
ready but nothing is recorded in it.

On the console, errors go to the error stream and everything else to the output.
How a line looks is a matter of the library that writes it, and so the layout is a
part of the journal. The layout `Journal.line` has the time of day, the severity,
and the message. Nothing that is proved of journals depends on it.

## Main definitions

* `Journal.Layout`: How an event is written as a line.
* `Journal`: What is recorded, and where.
* `Journal.line`: The layout that is used by default.
* `Journal.record`: Events recorded.
* `Journal.start`: The journal that settings ask for.
-/

namespace PolyCalc

/-- How an event at a time of day is written as a line. -/
abbrev Journal.Layout := String → Event → String

/-- What is recorded, and where. -/
structure Journal where
  verbosity : Verbosity
  console : Bool
  file : Option String
  layout : Journal.Layout

namespace Journal

/-- The line of an event at a time of day, as the default layout has it. -/
def line : Layout := fun clock event =>
  clock ++ " [" ++ event.severity.name ++ "] " ++ event.origin ++ event.message

/-- The stream of the console that a severity goes to. -/
def stream (severity : Severity) : Stream := if severity = .error then .error else .output

variable {m : Type → Type} [Monad m] [Host m]

/-- Records an event if the verbosity admits it. A line that cannot be written
    is lost. -/
def recordEvent (j : Journal) (event : Event) : m Unit := do
  if j.verbosity.admits event.severity then
    let text := j.layout (← Host.clock) event
    if j.console then printLine (stream event.severity) text
    if let some file := j.file then
      let _ ← appendLine file text

/-- Records events in order. -/
def record (j : Journal) (events : List Event) : m Unit := events.forM j.recordEvent

/-- Makes a log file ready to be appended to. -/
def openFile (path : String) : m (Option String) := do
  match ← Host.append path "" with
  | .ok () => return some path
  | .error cause =>
    printLine .error ("cannot open log file " ++ path ++ ": " ++ cause.message)
    return none

/-- The journal that settings ask for, with its first record made. There is none
    when another journal is already kept. -/
def start (s : Settings) (occupied : Bool) (layout : Layout := line) : m (Option Journal) := do
  if s.verbosity = .off then return none
  let file ← match s.logFile with
    | none => pure none
    | some path => openFile path
  if occupied ∨ (s.console = false ∧ file = none) then return none
  let j : Journal := ⟨s.verbosity, s.console, file, layout⟩
  j.recordEvent (.journalStarted s.verbosity)
  return some j

end Journal

/-- Records events where a journal is kept. -/
def recordIn {m : Type → Type} [Monad m] [Host m] (journal : Option Journal)
    (events : List Event) : m Unit :=
  match journal with
  | none => pure ()
  | some j => j.record events

end PolyCalc
