/-
# The program

Reads the arguments and the source, and writes the outcome.
-/
import Highlighter.Command.Outcome

namespace Highlighter.Program

/-- Whether an error of the system has the given number.  Some calls report it negated. -/
def hasNumber (code : UInt32) (number : Nat) : Bool :=
  code.toNat == number || code.toNat + number == UInt32.size

/-- The cause of an error of the system, told by its number where one kind has several. -/
def failureOf : IO.Error → ReadFailure
  | .noFileOrDirectory .. => .notFound
  | .inappropriateType _ code _ => if hasNumber code 20 then .notDirectory else .isDirectory
  | .permissionDenied .. => .permissionDenied
  | .invalidArgument _ code _ => if hasNumber code 36 then .invalidName else .invalidInput
  | _ => .other "uncategorized error".toList

/-- What became of reading some bytes. -/
def attempt (bytes : IO ByteArray) : IO (Except ReadFailure ByteArray) := do
  try return .ok (← bytes)
  catch e => return .error (failureOf e)

/-- Reads a file.  No name that the system knows holds a null character. -/
def readFile (filename : Text) : IO (Except ReadFailure ByteArray) :=
  if filename.contains '\x00' then return .error .invalidInput
  else attempt (IO.FS.readBinFile (String.ofList filename))

/-- The system that the program runs on.  It keeps no log, at whatever level. -/
def system : Command.System IO where
  logAt _ := return
  read := readFile
  input := attempt do (← IO.getStdin).readBinToEnd
  terminal := do (← IO.getStdout).isTty

/-- Writes an outcome. -/
def write (outcome : Outcome) : IO UInt32 := do
  IO.print (String.ofList outcome.output)
  if let some complaint := outcome.complaint? then
    IO.eprintln (String.ofList complaint.text)
  return outcome.status.toUInt32

end Highlighter.Program

open Highlighter

/-- The command line of the highlighter. -/
def main (args : List String) : IO UInt32 := do
  Program.write (← Command.perform Program.system (args.map String.toList))
