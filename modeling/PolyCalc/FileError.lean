/-!
# File Errors

Why a file could not be read or appended to. The causes are those of a file
system, in the order in which they come up: a path that is none, a name that no
file can have, a way that leads nowhere or through a file, and an end that is a
folder.

## Main definitions

* `FileError`: The causes.
* `FileError.message`: The causes in words.
-/

namespace PolyCalc

/-- Why a file could not be read or appended to. -/
inductive FileError where
  /-- The path contains the character that ends texts for the system. -/
  | nulInPath
  /-- The path, or a name in it, is longer than the system allows. -/
  | nameTooLong
  | notFound
  | notADirectory
  | isADirectory
  /-- Any other cause, in the words of the system. -/
  | other (message : String)
deriving DecidableEq, Repr

/-- The cause in words. -/
def FileError.message : FileError → String
  | .nulInPath => "file name contained an unexpected NUL byte"
  | .nameTooLong => "File name too long (os error 36)"
  | .notFound => "No such file or directory (os error 2)"
  | .notADirectory => "Not a directory (os error 20)"
  | .isADirectory => "Is a directory (os error 21)"
  | .other message => message

end PolyCalc
