import Keypad.CommandLine.Response

/-!
# Main — the program

The one file that the arguments name is read here; all else is `CommandLine.respond`.
-/

open Keypad

/-- The bytes of a file, or nothing if it cannot be read. -/
def readBytes? (name : String) : IO (Option ByteArray) :=
  try some <$> IO.FS.readBinFile name catch _ => pure none

/-- Answers the arguments, with the outputs and the exit status that the answer names. -/
def main (arguments : List String) : IO UInt32 := do
  let bytes ← match CommandLine.fileToRead? arguments with
    | some name => readBytes? name
    | none => pure none
  let response := CommandLine.respond (fun _ => bytes) arguments
  (← IO.getStdout).putStr response.output
  (← IO.getStderr).putStr response.errors
  pure response.status
