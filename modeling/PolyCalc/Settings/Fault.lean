import PolyCalc.FileError

/-!
# Faults of Settings

Why settings could not be had from a document. Lines are counted from one, and
every line counts.

## Main definitions

* `SettingsFault`: The causes.
* `SettingsFault.message`: The causes in words.
-/

namespace PolyCalc

/-- Why settings could not be had. -/
inductive SettingsFault where
  /-- The document could not be read. -/
  | unreadable (path : String) (cause : FileError)
  /-- A line is neither a title nor a key with its value. -/
  | invalidLine (number : Nat) (line : String)
  /-- A key stands before the first title. -/
  | keyOutsideSection (number : Nat) (key : String)
  | unknownSection (title : String)
  | unknownKey (key title : String)
  | unknownLevel (word : String)
  /-- The console is neither switched on nor off. -/
  | invalidSwitch (word : String)
  | emptyResultsFile
deriving DecidableEq, Repr

/-- The cause in words. -/
def SettingsFault.message : SettingsFault → String
  | .unreadable path cause => "cannot read config " ++ path ++ ": " ++ cause.message
  | .invalidLine number line => "line " ++ toString number ++ ": cannot parse '" ++ line ++ "'"
  | .keyOutsideSection number key =>
    "line " ++ toString number ++ ": key '" ++ key ++ "' outside of a section"
  | .unknownSection title => "unknown section '" ++ title ++ "'"
  | .unknownKey key title => "unknown key '" ++ key ++ "' in section '" ++ title ++ "'"
  | .unknownLevel word =>
    "loglevel must be debug, info, warn, error or off, got '" ++ word ++ "'"
  | .invalidSwitch word => "logging console must be true or false, got '" ++ word ++ "'"
  | .emptyResultsFile => "results file must not be empty"

end PolyCalc
