/-!
# CommandLine/Request — what the arguments of the program ask for

Arguments are taken from left to right, and the first one that settles the matter does so: a fault
of usage, or a flag that asks for help or for the version.  Flags may stand before and after the one
argument that is none, the contents, and the letters of several may share a hyphen.  The contents
are missed only when all arguments are taken.
-/

namespace Keypad.CommandLine

/-! ## Flags -/

/-- The flags of the program. -/
inductive Flag where
  | file
  | verbose
  | help
  | version
deriving DecidableEq

namespace Flag

/-- The name of a flag, which stands after two hyphens. -/
def name : Flag → String
  | file => "file"
  | verbose => "verbose"
  | help => "help"
  | version => "version"

/-- The letter of a flag, which stands after one hyphen, alone or with the letters of others. -/
def letter : Flag → Char
  | file => 'f'
  | verbose => 'v'
  | help => 'h'
  | version => 'V'

/-- All flags. -/
def all : List Flag := [file, verbose, help, version]

/-- The flag of a name. -/
def ofName? (name : String) : Option Flag := all.find? fun f => f.name = name

/-- The flag of a letter. -/
def ofLetter? (letter : Char) : Option Flag := all.find? fun f => f.letter = letter

@[simp] theorem ofName?_name (f : Flag) : ofName? f.name = some f := by
  cases f <;> decide +kernel

@[simp] theorem ofLetter?_letter (f : Flag) : ofLetter? f.letter = some f := by
  cases f <;> decide

end Flag

/-! ## What an argument list amounts to -/

/-- What is wrong with an argument list. -/
inductive UsageFault where
  /-- The argument is no flag of the program and looks like one. -/
  | unknownFlag (argument : String)
  /-- The flag is given a second time. -/
  | repeatedFlag (flag : Flag)
  /-- The flag is given a value, and takes none. -/
  | flagWithValue (flag : Flag)
  /-- The argument comes after the contents. -/
  | extraArgument (argument : String)
  /-- No argument gives the contents. -/
  | missingContents
deriving DecidableEq

/-- What a complete argument list asks for. -/
inductive Request where
  | help
  | version
  /-- The contents are run as a script, or as the name of a file that holds one. -/
  | run (isFile : Bool) (contents : String)
deriving DecidableEq

/-- What settles an argument list before its end: a request or a fault. -/
inductive Halt where
  | request (r : Request)
  | fault (f : UsageFault)
deriving DecidableEq

/-! ## Taking the arguments -/

/-- What the arguments up to some point have set.  That the log is verbose bears on no request; it
is kept because a flag may be given once only. -/
structure Settings where
  isFile : Bool
  isVerbose : Bool
  contents : Option String
deriving DecidableEq

namespace Settings

/-- Nothing is set. -/
def initial : Settings := ⟨false, false, none⟩

/-- A flag is set. -/
def setFlag (s : Settings) : Flag → Except Halt Settings
  | .file =>
    if s.isFile then .error (.fault (.repeatedFlag .file))
    else .ok { s with isFile := true }
  | .verbose =>
    if s.isVerbose then .error (.fault (.repeatedFlag .verbose))
    else .ok { s with isVerbose := true }
  | .help => .error (.request .help)
  | .version => .error (.request .version)

/-- The flags of letters that share one hyphen are set, one after the other. -/
def setLetters (s : Settings) : List Char → Except Halt Settings
  | [] => .ok s
  | c :: letters =>
    match Flag.ofLetter? c with
    | some f => (s.setFlag f).bind fun s' => s'.setLetters letters
    | none => .error (.fault (.unknownFlag (String.ofList ['-', c])))

/-- The flag of a name is set; what follows an equals sign is no part of the name. -/
def setName (s : Settings) (text : List Char) : Except Halt Settings :=
  let name := String.ofList (text.takeWhile (· ≠ '='))
  match Flag.ofName? name with
  | some f => if '=' ∈ text then .error (.fault (.flagWithValue f)) else s.setFlag f
  | none => .error (.fault (.unknownFlag ("--" ++ name)))

/-- The contents are set. -/
def setContents (s : Settings) (argument : String) : Except Halt Settings :=
  match s.contents with
  | some _ => .error (.fault (.extraArgument argument))
  | none => .ok { s with contents := some argument }

/-- One argument before the end of the flags is taken: flags begin with a hyphen and do not end
there. -/
def setArgument (s : Settings) (argument : String) : Except Halt Settings :=
  match argument.toList with
  | '-' :: '-' :: name => s.setName name
  | '-' :: c :: letters => s.setLetters (c :: letters)
  | _ => s.setContents argument

/-- Arguments are taken one after the other; after the argument `--` none of them is a flag. -/
def setArguments (s : Settings) : List String → Except Halt Settings
  | [] => .ok s
  | argument :: rest =>
    if argument = "--" then rest.foldlM setContents s
    else (s.setArgument argument).bind fun s' => s'.setArguments rest

/-- What the settings ask for at the end of the arguments. -/
def request (s : Settings) : Except UsageFault Request :=
  match s.contents with
  | some contents => .ok (.run s.isFile contents)
  | none => .error .missingContents

end Settings

/-- What an argument list asks for. -/
def readArguments (arguments : List String) : Except UsageFault Request :=
  match Settings.initial.setArguments arguments with
  | .ok s => s.request
  | .error (.request r) => .ok r
  | .error (.fault f) => .error f

end Keypad.CommandLine
