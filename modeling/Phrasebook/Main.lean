import Phrasebook.CommandLine.Run

/-!
# The program

The outer layer of the command line: it reads the file that the arguments name, prints what `run`
answers and ends with its code.
-/

namespace Phrasebook

/-- The words of the operating system for a failure that it numbers. Some numbers arrive negated. -/
def systemFailure (code : UInt32) (details : String) : String :=
  let number := if code < 0x80000000 then code else 0 - code
  let words :=
    if number = 2 then "No such file or directory"
    else if number = 13 then "Permission denied"
    else if number = 20 then "Not a directory"
    else if number = 21 then "Is a directory"
    else if number = 36 then "File name too long"
    else details
  words ++ " (os error " ++ toString number ++ ")"

/-- Why a file cannot be read. -/
def readFailure : IO.Error → String
  | .noFileOrDirectory _ code details => systemFailure code details
  | .permissionDenied _ code details => systemFailure code details
  | .inappropriateType _ code details => systemFailure code details
  | .invalidArgument _ code details => systemFailure code details
  | failure => toString failure

/-- The text of a file, or why it cannot be read. -/
def readText (path : String) : IO (Except String String) := do
  try
    match String.fromUTF8? (← IO.FS.readBinFile path) with
    | some text => return .ok text
    | none => return .error "stream did not contain valid UTF-8"
  catch failure =>
    return .error (readFailure failure)

end Phrasebook

open Phrasebook in
/-- Runs the program. -/
def main (arguments : List String) : IO UInt32 := do
  let contents ← match CommandLine.neededPath? arguments with
    | some path => readText path
    | none => pure (.ok "")
  let outcome := CommandLine.run (fun _ => contents) arguments
  IO.print outcome.stdout
  IO.eprint outcome.stderr
  return UInt32.ofNat outcome.exitCode
