import Acceptor.Automaton.Trace
import Acceptor.Json
import Acceptor.Load

/-! # Results and reports

The result of a test string is the trace of its run.  Results and diagnostics are reported either in
words, a line for each event and each verdict, or as a JSON object. -/

namespace Acceptor

/-- A test string with its run. -/
structure TestResult where
  input : String
  trace : Trace
deriving DecidableEq, Repr

/-- The results of the test strings, in order; an automaton without a start state has none. -/
def Loaded.results (l : Loaded) : List TestResult :=
  l.tests.filterMap fun input =>
    match l.automaton.trace input with
    | .ok trace => some { input, trace }
    | .error _ => none

/-- The verdict in words. -/
def TestResult.verdict (r : TestResult) : String :=
  "The string '" ++ r.input ++ "' is " ++ (if r.trace.accepted then "accepted" else "rejected") ++
    " by the DFA."

/-- The lines for a result: its events if they are wanted, and the verdict. -/
def TestResult.lines (a : Automaton) (events : Bool) (r : TestResult) : List String :=
  (if events then r.trace.events.map fun e => "  " ++ e.describe a else []) ++ [r.verdict]

namespace Json

/-- The id of a state. -/
def ofStateId (id : StateId) : Json := .number id.index

/-- The character as a string. -/
def ofSymbol (c : Char) : Json := .string (String.singleton c)

/-- An event, under its name. -/
def ofEvent : RunEvent → Json
  | .started state => .object [("event", .string "started"), ("state", ofStateId state)]
  | .consumed source symbol target =>
    .object [("event", .string "consumed"), ("from", ofStateId source), ("symbol", ofSymbol symbol),
      ("to", ofStateId target)]
  | .stuck state symbol position =>
    .object [("event", .string "stuck"), ("state", ofStateId state), ("symbol", ofSymbol symbol),
      ("position", .number position)]
  | .finished state accepted =>
    .object [("event", .string "finished"), ("state", ofStateId state),
      ("accepted", .bool accepted)]

/-- A span as its two offsets. -/
def ofSpan (s : Span) : Json := .list [.number s.start, .number s.stop]

/-- A note, with the note attached to it already in JSON. -/
def ofNote (n : Note) (child : Json) : Json :=
  .object [("message", .string n.message), ("span", (n.span?.map ofSpan).getD .null),
    ("level", .string n.level.label), ("issue", (n.issue?.map fun i => .string i.name).getD .null),
    ("child", child)]

/-- A diagnostic, each note inside the one it is attached to. -/
def ofDiagnostic (d : Diagnostic) : Json := d.notes.foldr ofNote .null

/-- A result, with its events if they are wanted. -/
def ofResult (events : Bool) (r : TestResult) : Json :=
  .object ([("input", .string r.input), ("accepted", .bool r.trace.accepted)] ++
    if events then [("trace", .list (r.trace.events.map ofEvent))] else [])

/-- The whole report. -/
def report (events : Bool) (results : List TestResult) (diagnostics : List Diagnostic) : Json :=
  .object [("results", .list (results.map (ofResult events))),
    ("diagnostics", .list (diagnostics.map ofDiagnostic))]

end Json

end Acceptor
