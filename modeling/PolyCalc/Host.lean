import PolyCalc.Folder

/-!
# Hosts

What the calculator asks of its surroundings: to read a file, to append to a
file, to print to one of two streams, and to tell the time of day. Everything
that has an effect is written for an arbitrary host. A `Desk` is the host whose
effects are values: a folder of files, a clock that stands still, and what was
printed. What is proved of effects is proved at a desk, with the idealizations of a
`Folder`: files fail when they are opened and not later, and printing never fails.

## Main definitions

* `Stream`: The two streams that text is printed to.
* `Host`: The effects.
* `Desk`: A folder, a time of day, and what was printed.
-/

namespace PolyCalc

/-- The two streams that text is printed to. -/
inductive Stream where
  | output
  | error
deriving DecidableEq, Repr

/-- The effects that the calculator has on its surroundings. -/
class Host (m : Type → Type) where
  /-- The content of the file at a path. -/
  read : String → m (Except FileError String)
  /-- Appends a text to the file at a path, which is created where there is none. -/
  append : String → String → m (Except FileError Unit)
  /-- Prints a text. -/
  print : Stream → String → m Unit
  /-- The time of day. -/
  clock : m String

/-- A folder of files and a time of day, together with what was printed. -/
structure Desk where
  folder : Folder
  /-- The time of day, with two digits each for hours, minutes and seconds. -/
  time : String := "00:00:00"
  /-- What was printed, in order. -/
  printed : List (Stream × String) := []

namespace Desk

/-- What was printed to a stream. -/
def text (desk : Desk) (stream : Stream) : String :=
  String.join ((desk.printed.filter fun (target, _) => target = stream).map Prod.snd)

end Desk

/-- Effects as values. -/
instance : Host (StateM Desk) where
  read path := do return (← get).folder.read path
  append path text := do
    let desk ← get
    match desk.folder.append path text with
    | .error e => return .error e
    | .ok folder =>
      set { desk with folder }
      return .ok ()
  print stream text := modify fun desk => { desk with printed := desk.printed ++ [(stream, text)] }
  clock := return (← get).time

/-- Prints a text and a line break. -/
def printLine {m : Type → Type} [Host m] (stream : Stream) (line : String) : m Unit :=
  Host.print stream (line ++ "\n")

/-- Appends a text and a line break to the file at a path. -/
def appendLine {m : Type → Type} [Host m] (path line : String) : m (Except FileError Unit) :=
  Host.append path (line ++ "\n")

end PolyCalc
