import PolyCalc.Host
import PolyCalc.Settings.Document
import PolyCalc.Settings.Verbosity

/-!
# Settings of a Session

What can be set for a session of the calculator: how much is recorded, whether
the records are shown on the console, the file that they are appended to, and
the file that results are appended to. Each setting has a default and is
determined by one key of a document; a document with any other key or section
is refused.

The settings are collected by visiting the sections of a document and, in each,
its entries. Each entry touches the setting of its own key alone, so the order
of the visits does not matter to the settings.

## Main definitions

* `Settings`: The settings, with their defaults.
* `Settings.apply`: One entry put into effect.
* `Settings.visit`: The settings after visiting sections in order.
* `Settings.parse`: The settings of a text.
* `Settings.load`: The settings of a file.
-/

namespace PolyCalc

/-- The settings of a session. -/
structure Settings where
  verbosity : Verbosity := .upTo .info
  /-- Are records shown on the console? -/
  console : Bool := false
  /-- The file that records are appended to, if any. -/
  logFile : Option String := some "PolynomialApp.log"
  /-- The file that results are appended to. -/
  resultsFile : String := "PolynomialResults.txt"
deriving DecidableEq, Repr

/-- What can be set. -/
inductive Setting where
  | verbosity
  | console
  | logFile
  | resultsFile
deriving DecidableEq, Repr

/-- The setting that a key stands for in a section. -/
def Setting.ofKey (title key : String) : Except SettingsFault Setting :=
  if title = "logging" then
    if key = "level" then pure verbosity
    else if key = "console" then pure console
    else if key = "file" then pure logFile
    else throw (.unknownKey key title)
  else if title = "results" then
    if key = "file" then pure resultsFile else throw (.unknownKey key title)
  else throw (.unknownSection title)

namespace Settings

/-- The value of a switch. -/
def readSwitch (word : String) : Except SettingsFault Bool :=
  if word = "true" then pure true
  else if word = "false" then pure false
  else throw (.invalidSwitch word)

/-- The log file that a value names: none for the words `none` and `off`, in any
    case, and for the empty value. -/
def readLogFile (value : String) : Option String :=
  let lower := value.toList.map Char.toLower
  if lower = [] ∨ lower = "none".toList ∨ lower = "off".toList then none else some value

/-- The settings with the setting of one key replaced. -/
def apply (s : Settings) (title key value : String) : Except SettingsFault Settings := do
  match ← Setting.ofKey title key with
  | .verbosity => return { s with verbosity := ← Verbosity.ofName value }
  | .console => return { s with console := ← readSwitch value }
  | .logFile => return { s with logFile := readLogFile value }
  | .resultsFile =>
    if value = "" then throw .emptyResultsFile
    return { s with resultsFile := value }

/-- The settings after visiting the entries of a section in order. -/
def visitSection (s : Settings) (part : Section) : Except SettingsFault Settings :=
  if part.title = "logging" ∨ part.title = "results" then
    part.entries.foldlM (fun s (key, value) => s.apply part.title key value) s
  else throw (.unknownSection part.title)

/-- The settings after visiting sections in order. -/
def visit (s : Settings) (parts : List Section) : Except SettingsFault Settings :=
  parts.foldlM visitSection s

/-- The settings of a document: the defaults, changed by its entries. -/
def ofDocument (d : Document) : Except SettingsFault Settings := visit {} d.sections

/-- The settings of a text. -/
def parse (text : String) : Except SettingsFault Settings := do
  ofDocument (← Document.parse text)

/-- The settings of a file. -/
def load {m : Type → Type} [Monad m] [Host m] (path : String) :
    m (Except SettingsFault Settings) := do
  match ← Host.read path with
  | .error cause => return .error (.unreadable path cause)
  | .ok text => return parse text

end Settings

end PolyCalc
