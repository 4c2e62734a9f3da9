import Acceptor.Description.Parse

/-! # Command-line arguments

The arguments are read from left to right.  Options with one letter can be run together,
`-tl legacy`; the value of an option may be attached, `-llegacy`, follow an equals sign, or be the
next argument.  No option may be given twice.  A lone `--` ends the options, so that the file may
have any name.  The first thing that decides the outcome wins: a fault, or an option that asks for
the version or for help. -/

namespace Acceptor.Command

/-- What a simulation is asked to do. -/
structure Request where
  /-- The description file, as given. -/
  file : String
  layout : Layout := .auto
  /-- Show the events of every run. -/
  trace : Bool := false
  /-- Show the transition table. -/
  table : Bool := false
  /-- Write a report for machines. -/
  json : Bool := false
  /-- Do not report an ambiguous line. -/
  allowAmbiguous : Bool := false
deriving DecidableEq, Repr

/-- What a command line asks for. -/
inductive Invocation
  | simulate (request : Request)
  | version
  | help
deriving DecidableEq, Repr

/-- Why a command line is refused. -/
inductive UsageError
  /-- There is no such option, or there is already a file. -/
  | unexpected (argument : String)
  /-- The option was given before. -/
  | repeated (option : String)
  /-- The option has no value, and was given one. -/
  | valueForFlag (option value : String)
  /-- The option needs another value, or needs one at all. -/
  | badValue (option value : String)
  /-- No file is given. -/
  | missingFile
deriving DecidableEq, Repr

/-- The text of the error. -/
def UsageError.message : UsageError → String
  | .unexpected argument => "unexpected argument '" ++ argument ++ "' found"
  | .repeated option => "the argument '" ++ option ++ "' cannot be used multiple times"
  | .valueForFlag option value =>
    "unexpected value '" ++ value ++ "' for '" ++ option ++ "' found; no more were expected"
  | .badValue option value =>
    "invalid value '" ++ value ++ "' for '" ++ option ++ "', expected auto, legacy or sectioned"
  | .missingFile => "the following required arguments were not provided: <FILE>"

/-- The options that do not end the reading of the command line. -/
inductive Switch
  | layout
  | trace
  | table
  | json
  | allowAmbiguous
deriving DecidableEq, Repr

/-- The long spelling of an option. -/
def Switch.spelling : Switch → String
  | .layout => "--layout"
  | .trace => "--trace"
  | .table => "--table"
  | .json => "--json"
  | .allowAmbiguous => "--allow-ambiguous"

/-- What an option stands for. -/
inductive Meaning
  | switch (s : Switch)
  | version
  | help
deriving DecidableEq, Repr

/-- What an option with one letter stands for. -/
def Meaning.ofLetter? : Char → Option Meaning
  | 'l' => some (.switch .layout)
  | 't' => some (.switch .trace)
  | 'V' => some .version
  | 'h' => some .help
  | _ => none

/-- What an option with a long spelling stands for, without the dashes. -/
def Meaning.ofWord? : String → Option Meaning
  | "layout" => some (.switch .layout)
  | "trace" => some (.switch .trace)
  | "table" => some (.switch .table)
  | "json" => some (.switch .json)
  | "allow-ambiguous" => some (.switch .allowAmbiguous)
  | "version" => some .version
  | "help" => some .help
  | _ => none

/-- The layout that a word stands for. -/
def layoutOf? : String → Option Layout
  | "auto" => some .auto
  | "legacy" => some .legacy
  | "sectioned" => some .sectioned
  | _ => none

/-- What was found on the command line so far. -/
structure Reading where
  file? : Option String := none
  layout : Layout := .auto
  /-- The options that were given. -/
  given : List Switch := []

namespace Reading

/-- Takes note of an option that was not given before. -/
def give (p : Reading) (s : Switch) : Except UsageError Reading :=
  if s ∈ p.given then .error (.repeated s.spelling) else .ok { p with given := s :: p.given }

/-- Takes note of the layout option. -/
def giveLayout (p : Reading) (value : String) : Except UsageError Reading :=
  match layoutOf? value with
  | none => .error (.badValue Switch.layout.spelling value)
  | some layout => do return { ← p.give .layout with layout }

/-- Takes note of a file. -/
def giveFile (p : Reading) (name : String) : Except UsageError Reading :=
  match p.file? with
  | some _ => .error (.unexpected name)
  | none => if name.isEmpty then .error .missingFile else .ok { p with file? := some name }

/-- What is asked for once all arguments are read. -/
def request (p : Reading) : Except UsageError Invocation :=
  match p.file? with
  | none => .error .missingFile
  | some file =>
    .ok (.simulate {
      file
      layout := p.layout
      trace := p.given.contains .trace
      table := p.given.contains .table
      json := p.given.contains .json
      allowAmbiguous := p.given.contains .allowAmbiguous })

end Reading

/-- How reading goes on after an argument. -/
inductive Next
  /-- With the next argument. -/
  | more (p : Reading)
  /-- The next argument is the layout. -/
  | value (p : Reading)
  /-- Not at all. -/
  | done (i : Invocation)

/-- Reads letters run together behind one dash. -/
def readLetters (argument : String) (p : Reading) : List Char → Except UsageError Next
  | [] => .ok (.more p)
  | c :: cs =>
    match Meaning.ofLetter? c with
    | none => .error (.unexpected argument)
    | some .version => .ok (.done .version)
    | some .help => .ok (.done .help)
    | some (.switch .layout) =>
      match cs with
      | [] => .ok (.value p)
      | '=' :: value => .more <$> p.giveLayout (String.ofList value)
      | value => .more <$> p.giveLayout (String.ofList value)
    | some (.switch s) =>
      match p.give s with
      | .error e => .error e
      | .ok p => readLetters argument p cs

/-- Reads an option with a long spelling, given without its dashes. -/
def readWord (argument : String) (p : Reading) (word : List Char) : Except UsageError Next :=
  let (name, value) := word.span (· != '=')
  match Meaning.ofWord? (String.ofList name), value with
  | none, _ => .error (.unexpected argument)
  | some (.switch .layout), [] => .ok (.value p)
  | some (.switch .layout), _ :: value => .more <$> p.giveLayout (String.ofList value)
  | some _, _ :: value => .error (.valueForFlag argument (String.ofList value))
  | some .version, [] => .ok (.done .version)
  | some .help, [] => .ok (.done .help)
  | some (.switch s), [] => .more <$> p.give s

/-- Reads one argument in front of a lone double dash. -/
def readArgument (p : Reading) (argument : String) : Except UsageError Next :=
  match argument.toList with
  | '-' :: '-' :: word => readWord argument p word
  | '-' :: c :: cs => readLetters argument p (c :: cs)
  | _ => .more <$> p.giveFile argument

/-- Reads the arguments behind what was found so far. -/
def readArguments (p : Reading) : List String → Except UsageError Invocation
  | [] => p.request
  | "--" :: files => files.foldlM Reading.giveFile p >>= Reading.request
  | argument :: rest =>
    match readArgument p argument with
    | .error e => .error e
    | .ok (.done i) => .ok i
    | .ok (.more p) => readArguments p rest
    | .ok (.value p) =>
      match rest with
      | [] => .error (.badValue argument "")
      | value :: rest =>
        match p.giveLayout value with
        | .error e => .error e
        | .ok p => readArguments p rest

/-- What a command line asks for. -/
def parseArguments (arguments : List String) : Except UsageError Invocation :=
  readArguments {} arguments

end Acceptor.Command
