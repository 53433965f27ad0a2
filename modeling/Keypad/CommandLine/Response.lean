import Keypad.Calculator.Script
import Keypad.CommandLine.Request

/-!
# CommandLine/Response — how the program answers its arguments

The response is a function of the arguments and of the files that can be read.  The contents are the
script, or the name of the file that holds it as UTF-8 text; the display that the script leads to is
printed with status zero.  A file that cannot be read and a script that names an unknown key end
with status one, a fault of usage with status two.

Two things are left out.  The program keeps a log on its second output, of warnings by default and
of every step with the verbose flag; no response holds a line of it.  The texts on usage are given
in short: a fault of usage comes with its message and the line of usage, and with no advice on how
to mend the arguments.
-/

namespace Keypad.CommandLine

/-- How the program ends: its exit status and what it writes to its two outputs, the lines of its
log aside. -/
structure Response where
  status : UInt32
  output : String
  errors : String
deriving DecidableEq

/-! ## Texts -/

/-- The line that shows how the program is called. -/
def usage : String := "Usage: abacus [OPTIONS] <CONTENTS>\n"

/-- The text that explains the program, in short. -/
def helpText : String :=
  "abacus runs a keypad calculator from a keystroke script such as `12 + 3 * 4 =` " ++
  "and prints the two display lines\n\n" ++ usage ++
  "\nArguments:\n  <CONTENTS>  \n\nOptions:\n" ++
  "  -f, --file     Tells abacus to read the script from a file instead of the argument\n" ++
  "  -v, --verbose  Logs every state change of the calculator to stderr\n" ++
  "  -h, --help     Print help\n" ++
  "  -V, --version  Print version\n"

/-- A fault of usage in words, without advice on how to mend it. -/
def UsageFault.message : UsageFault → String
  | unknownFlag argument => "unexpected argument '" ++ argument ++ "' found"
  | repeatedFlag flag => "the argument '--" ++ flag.name ++ "' cannot be used multiple times"
  | flagWithValue flag => "unexpected value for '--" ++ flag.name ++ "' found"
  | extraArgument argument => "unexpected argument '" ++ argument ++ "' found"
  | missingContents => "the following required arguments were not provided:\n  <CONTENTS>"

/-- The error for a file that is missing or holds no UTF-8 text, in words. -/
def readFailure (name : String) : String :=
  "Failed to read the input file '" ++ name ++ "'. Perhaps this file does not exist?"

/-! ## Answers -/

/-- The script that a request runs: the contents themselves, or the text of the file they name. -/
def script? (readFile : String → Option ByteArray) (isFile : Bool) (contents : String) :
    Option String :=
  if isFile then (readFile contents).bind String.fromUTF8? else some contents

/-- The response to a request; `readFile` gives the bytes of the files that can be read. -/
def Request.respond (readFile : String → Option ByteArray) : Request → Response
  | help => ⟨0, helpText, ""⟩
  | version => ⟨0, "abacus 0.1.0\n", ""⟩
  | run isFile contents =>
    match script? readFile isFile contents with
    | none => ⟨1, "", readFailure contents ++ "\n"⟩
    | some source =>
      match runScript source with
      | .ok display => ⟨0, display.text ++ "\n", ""⟩
      | .error e => ⟨1, "", e.message ++ "\n"⟩

/-- **The program**: its response to its arguments. -/
def respond (readFile : String → Option ByteArray) (arguments : List String) : Response :=
  match readArguments arguments with
  | .ok r => r.respond readFile
  | .error f => ⟨2, "", "error: " ++ f.message ++ "\n\n" ++ usage⟩

/-- The file that the program reads to answer its arguments, if it reads one. -/
def fileToRead? (arguments : List String) : Option String :=
  match readArguments arguments with
  | .ok (.run true contents) => some contents
  | _ => none

end Keypad.CommandLine
