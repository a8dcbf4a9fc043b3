import PolyCalc.CommandLine.Run
import Std.Time.DateTime.Timestamp

/-!
# The Program

The command line of the calculator on the files of the system, with its two
streams and its clock. Log lines carry the time of day in universal time.
-/

namespace PolyCalc

/-- The number of an error, which some calls report with a minus sign. -/
def errorNumber (code : UInt32) : UInt32 := if code < 0x80000000 then code else -code

/-- The cause of failure that the system reports. -/
def fileErrorOfSystem (error : IO.Error) : FileError :=
  match error with
  | .noFileOrDirectory _ _ _ => .notFound
  | .invalidArgument _ code _ =>
    if errorNumber code = 36 then .nameTooLong else .other (toString error)
  | .inappropriateType _ code _ =>
    if errorNumber code = 20 then .notADirectory
    else if errorNumber code = 21 then .isADirectory
    else .other (toString error)
  | _ => .other (toString error)

/-- The answer of an action on a path that may fail. -/
def attempt {α : Type} (path : String) (action : IO α) : IO (Except FileError α) := do
  if path.toList.contains '\x00' then return .error .nulInPath
  try
    return .ok (← action)
  catch error =>
    return .error (fileErrorOfSystem error)

/-- A number below one hundred with two digits. -/
def twoDigits (n : Nat) : String := String.ofList ((Nat.toDigits 10 n).leftpad 2 '0')

/-- The time of day at a number of seconds after a midnight. -/
def timeOfDay (seconds : Nat) : String :=
  twoDigits (seconds / 3600 % 24) ++ ":" ++ twoDigits (seconds / 60 % 60) ++ ":"
    ++ twoDigits (seconds % 60)

/-- The effects on the system. -/
instance : Host IO where
  read path := attempt path (IO.FS.readFile path)
  append path text := attempt path do
    let file ← IO.FS.Handle.mk path .append
    file.putStr text
    file.flush
  print
    | .output, text => do
      let stream ← IO.getStdout
      stream.putStr text
      stream.flush
    | .error, text => IO.eprint text
  clock := do
    let now ← Std.Time.Timestamp.now
    return timeOfDay now.toSecondsSinceUnixEpoch.val.toNat

end PolyCalc

/-- The program: its exit code says how the run ended. -/
def main (arguments : List String) : IO UInt32 := do
  let status ← PolyCalc.execute arguments
  return UInt32.ofNat status.code
