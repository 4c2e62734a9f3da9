import Acceptor.Automaton.Table
import Acceptor.Command.Arguments
import Acceptor.Command.Report
import Acceptor.Command.Source
import Acceptor.Diagnostic.Render

/-! # The command

The command loads a description file and runs its test strings.  Verdicts, the table and reports go
to the output, diagnostics and errors to the error stream.  The exit code is 0 if the automaton has
a start state, whatever else is wrong with the description; 1 if it has none or the file cannot be
read; and 2 if the command line is refused. -/

namespace Acceptor.Command

/-- What a command leaves behind. -/
structure Outcome where
  code : Nat
  stdout : String := ""
  stderr : String := ""
deriving DecidableEq, Repr

/-- The name and version of the command. -/
def versionText : String := "dfa-sim 0.1.0\n"

/-- The explanation of the command line. -/
def helpText : String :=
  "Run test strings through a DFA described in a text file\n\n" ++
  "Usage: dfa-sim [OPTIONS] <FILE>\n\n" ++
  "Arguments:\n" ++
  "  <FILE>  Description file: accepting states, start state, optional state list, transitions, " ++
  "then one test string per line\n\n" ++
  "Options:\n" ++
  "  -l, --layout <LAYOUT>  How to read the description [default: auto] " ++
  "[possible values: auto, legacy, sectioned]\n" ++
  "  -t, --trace            Print every state visited while running each test string\n" ++
  "      --table            Print the transition table before running\n" ++
  "      --json             Emit a JSON report instead of text\n" ++
  "      --allow-ambiguous  Do not warn when a legacy third line only looks like a transition " ++
  "list\n" ++
  "  -h, --help             Print help\n" ++
  "  -V, --version          Print version\n"

/-- The text of an error line. -/
def errorLine (message : String) : String := "error: " ++ message ++ "\n"

/-- The text of lines, each one ended. -/
def unlines (lines : List String) : String := String.join (lines.map (· ++ "\n"))

/-- What the output shows for a loaded description. -/
def output (r : Request) (l : Loaded) : String :=
  if r.json then (Json.report r.trace l.results l.log.entries.toList).pretty ++ "\n"
  else
    (if r.table then l.automaton.table ++ "\n" else "") ++
      unlines (l.results.flatMap (·.lines l.automaton r.trace))

/-- What the error stream shows for a loaded description. -/
def errors (color : Bool) (r : Request) (source : String) (l : Loaded) : String :=
  (if r.json then "" else unlines (l.log.render source color)) ++
    if l.automaton.start.isNone then errorLine RunError.missingStart.message else ""

/-- The options under which a request reads its description. -/
def Request.options (r : Request) : Options :=
  { layout := r.layout, flagAmbiguity := !r.allowAmbiguous }

/-- Answers a request, given the text of its file. -/
def simulate (color : Bool) (r : Request) (source : String) : Outcome :=
  let l := load source r.options
  { code := if l.automaton.start.isSome then 0 else 1
    stdout := output r l
    stderr := errors color r source l }

/-- Runs the command, where `read` reads a file and `color` tells whether the error stream can show
colours. -/
def run (color : Bool) (read : String → Except ReadFault String) (arguments : List String) :
    Outcome :=
  match parseArguments arguments with
  | .error e => { code := 2, stderr := errorLine e.message }
  | .ok .version => { code := 0, stdout := versionText }
  | .ok .help => { code := 0, stdout := helpText }
  | .ok (.simulate r) =>
    match read r.file with
    | .error fault =>
      { code := 1, stderr := errorLine ("cannot read " ++ r.file ++ ": " ++ fault.message) }
    | .ok source => simulate color r source

/-- The file that a command line asks for. -/
def file? (arguments : List String) : Option String :=
  match parseArguments arguments with
  | .ok (.simulate r) => some r.file
  | _ => none

end Acceptor.Command
