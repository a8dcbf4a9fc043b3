import PolyCalc.Settings.Fault
import PolyCalc.Text.Blank
import PolyCalc.Text.Pieces

/-!
# Settings Documents

A plain document of sections: a title alone on its line, and below it keys with
their values, each key and its value on one line with a colon between them. Lines
that are blank or start like a comment are ignored. Blanks around a line and
around a value mean nothing, so a carriage return before a line break is
dropped with them; inside a value it makes the line invalid.

A section that is opened again is continued, and a key that is set again keeps
its last value. Sections and keys are listed in the order of their first
appearance. Nothing depends on that order but which of several faults of the
settings is found first.

## Main definitions

* `Line`: The classes of lines.
* `Line.classify`: The class of a line.
* `Section`, `Document`: What a document says.
* `Document.parse`: The document of a text.
-/

namespace PolyCalc

/-- The classes of lines. -/
inductive Line where
  | ignored
  | title (title : String)
  | entry (key value : String)
  | invalid
deriving DecidableEq, Repr

/-- The letters that start a title or a key. -/
def isNameStart (c : Char) : Bool := c.isAlpha || c = '_'

/-- The characters of a title or a key. -/
def isNameChar (c : Char) : Bool := c.isAlphanum || c = '_'

/-- The name at the start of a text, and the rest. There is none when the text
    starts with a digit or another character that no name starts with. -/
def readName : List Char → Option (List Char × List Char)
  | [] => none
  | c :: rest =>
    if isNameStart c then some (c :: rest.takeWhile isNameChar, rest.dropWhile isNameChar)
    else none

/-- The text behind the spaces and tabs at its start. -/
def dropSpaces (s : List Char) : List Char := s.dropWhile fun c => c = ' ' || c = '\t'

namespace Line

/-- Is a trimmed line blank or a comment? -/
def isComment : List Char → Bool
  | [] => true
  | '#' :: _ => true
  | '%' :: _ => true
  | '/' :: '/' :: _ => true
  | _ => false

/-- The class of a trimmed line. -/
def classify (line : List Char) : Line :=
  if isComment line then ignored
  else
    match readName line with
    | none => invalid
    | some (name, []) => title (String.ofList name)
    | some (name, rest) =>
      match dropSpaces rest with
      | ':' :: after =>
        let value := dropSpaces after
        if value.contains '\r' then invalid
        else entry (String.ofList name) (String.ofList (Text.trim value))
      | _ => invalid

end Line

/-- A section of a document: its title, and its keys with their values. -/
structure Section where
  title : String
  entries : List (String × String)
deriving DecidableEq, Repr

namespace Section

/-- The section with a key set to a value. -/
def assign (s : Section) (key value : String) : Section :=
  { s with entries :=
      if (s.entries.lookup key).isSome then
        s.entries.map fun entry => if entry.1 = key then (key, value) else entry
      else s.entries ++ [(key, value)] }

end Section

/-- What a document says: its sections. -/
structure Document where
  sections : List Section
deriving DecidableEq, Repr

namespace Document

/-- The section with a title. -/
def find? (d : Document) (title : String) : Option Section :=
  d.sections.find? fun s => s.title = title

/-- The value of a key in a section. -/
def lookup (d : Document) (title key : String) : Option String :=
  (d.find? title).bind fun s => s.entries.lookup key

/-- The document with a section of a title, which stays as it is if there is one. -/
def openSection (d : Document) (title : String) : Document :=
  if (d.find? title).isSome then d else ⟨d.sections ++ [⟨title, []⟩]⟩

/-- The document with a key set in the section of a title. -/
def assign (d : Document) (title key value : String) : Document :=
  ⟨d.sections.map fun s => if s.title = title then s.assign key value else s⟩

/-- Reads the remaining lines, the first of which has the given number, into a
    document whose current section is the one last opened. -/
def readLines (number : Nat) (d : Document) (current : Option String) :
    List (List Char) → Except SettingsFault Document
  | [] => pure d
  | line :: rest =>
    let line := Text.trim line
    match Line.classify line with
    | .ignored => readLines (number + 1) d current rest
    | .title title => readLines (number + 1) (d.openSection title) (some title) rest
    | .entry key value =>
      match current with
      | none => throw (.keyOutsideSection number key)
      | some title => readLines (number + 1) (d.assign title key value) current rest
    | .invalid => throw (.invalidLine number (String.ofList line))

/-- The document of a text. -/
def parse (text : String) : Except SettingsFault Document :=
  readLines 1 ⟨[]⟩ none (Text.pieces '\n' text.toList)

end Document

end PolyCalc
