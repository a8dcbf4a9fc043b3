import PolyCalc.FileError
import PolyCalc.Text.Pieces

/-!
# Paths

A path names a file by the folders on the way to it and its own name, with
slashes between them. Several slashes are as good as one. A path starts in the
folder that the program works in, or at the root of the system if it begins
with a slash; the empty path names the folder itself.

What a path leads to depends on the files that there are, since every name on
the way has to be a folder. Its `place` is where it would lead if each of them
was: the name `.` stays, and `..` climbs out of the folder on the way, or out of
the folder that the program works in. So a place is a list of proper names with
a note of where they start, and two paths lead to one file only if they have
one place.

A slash at the end says that the last name is meant as that of a folder. It
changes what can be done with a path, but not its place.

## Main definitions

* `Place`: A place for a file or a folder.
* `Path`: A path, taken apart.
* `Path.ofText`: The path that a text spells.
* `Path.place`: The place of a path.
-/

namespace PolyCalc

/-- Where the names of a place start. -/
inductive Origin where
  /-- So many levels above the folder that the program works in; at the level
      zero, in this folder. -/
  | above (levels : Nat)
  /-- At the root of the system. -/
  | root
deriving DecidableEq, Repr

/-- A place for a file or a folder: the proper names that lead there. -/
structure Place where
  origin : Origin
  names : List String
deriving DecidableEq, Repr

namespace Place

/-- The place of the folder that the program works in. -/
def home : Place := ⟨.above 0, []⟩

/-- The place of a name in a folder. -/
def child (folder : Place) (name : String) : Place := ⟨folder.origin, folder.names ++ [name]⟩

/-- The folder around a folder. The root is its own. -/
def parent : Place → Place
  | ⟨.above levels, []⟩ => ⟨.above (levels + 1), []⟩
  | ⟨.root, []⟩ => ⟨.root, []⟩
  | ⟨origin, names⟩ => ⟨origin, names.dropLast⟩

/-- Where a name leads from a folder. -/
def step (folder : Place) (name : String) : Place :=
  if name = "." then folder else if name = ".." then folder.parent else folder.child name

/-- Is a place in the folder that the program works in? -/
def isHome (p : Place) : Bool := p.origin = .above 0

/-- Is a place inside a folder, at any depth? -/
def isInside (p folder : Place) : Bool :=
  p.origin = folder.origin && folder.names.isPrefixOf p.names && p ≠ folder

/-- The names of a place as text. -/
def text (p : Place) : String := "/".intercalate p.names

end Place

/-- A path, taken apart. -/
structure Path where
  /-- Where it starts. -/
  start : Place
  /-- The names of the folders on the way. -/
  folders : List String
  /-- The name at its end, which is `.` if there is no other. -/
  last : String
  /-- Does a slash follow the last name? -/
  endsInSlash : Bool
deriving DecidableEq, Repr

namespace Path

/-- The number of bytes that a path cannot have any more. -/
def sizeLimit : Nat := 4096

/-- The number of bytes that a name can have at most. -/
def nameLimit : Nat := 255

/-- Is a name longer than a file's name can be? -/
def isTooLong (name : String) : Bool := nameLimit < name.utf8ByteSize

/-- The names between slashes. -/
def names (text : List Char) : List String :=
  ((Text.pieces '/' text).filter (· ≠ [])).map String.ofList

/-- The path that a text spells. -/
def ofText (text : String) : Except FileError Path :=
  let characters := text.toList
  if characters.contains '\x00' then throw .nulInPath
  else if sizeLimit ≤ text.utf8ByteSize then throw .nameTooLong
  else
    let all := names characters
    pure {
      start := if characters.head? = some '/' then ⟨.root, []⟩ else Place.home
      folders := all.dropLast
      last := all.getLast?.getD "."
      endsInSlash := characters.getLast? = some '/' }

/-- The place of a path, where every name on the way is taken for a folder's. -/
def place (p : Path) : Place := (p.folders ++ [p.last]).foldl Place.step p.start

end Path

end PolyCalc
