import Acceptor.Text.Span

/-! # Diagnostics

Reading a description never fails; what is wrong with it is reported as a list of diagnostics.  A
diagnostic is a note with a chain of further notes attached to it, such as a hint how to mend the
problem.  A note has a place for one attached note only, so attaching replaces what was attached
before, together with everything below it.

A `Log` collects diagnostics in the order in which they are found and keeps track of whether any of
them is an error. -/

namespace Acceptor

/-- How serious a note is. -/
inductive Level
  | warning
  | error
  | help
deriving DecidableEq, Repr

/-- The word for a level. -/
def Level.label : Level → String
  | .warning => "warning"
  | .error => "error"
  | .help => "help"

/-- The problems a description can have that reading it recovers from. -/
inductive Issue
  /-- A word of a transition list is not a transition. -/
  | malformedTransitionToken
  /-- A transition or the start names a state that does not exist. -/
  | unknownStateReference
  /-- A state already had an edge on the symbol. -/
  | transitionRedefined
  /-- The description ends too early. -/
  | missingLine
  /-- The start section names no state. -/
  | emptyStart
  /-- A line was read as a transition list although some word of it is none. -/
  | ambiguousLayout
  /-- More than one word was given for the start state. -/
  | extraStartTokens
  /-- A line of a sectioned description is not a section. -/
  | malformedSection
  /-- A section has a key that means nothing. -/
  | unknownSection
  /-- A section was given before. -/
  | duplicateSection
deriving DecidableEq, Repr

/-- The identifier of an issue in reports. -/
def Issue.name : Issue → String
  | .malformedTransitionToken => "malformed_transition_token"
  | .unknownStateReference => "unknown_state_reference"
  | .transitionRedefined => "transition_redefined"
  | .missingLine => "missing_line"
  | .emptyStart => "empty_start"
  | .ambiguousLayout => "ambiguous_layout"
  | .extraStartTokens => "extra_start_tokens"
  | .malformedSection => "malformed_section"
  | .unknownSection => "unknown_section"
  | .duplicateSection => "duplicate_section"

/-- One message, perhaps about a place in the source. -/
structure Note where
  level : Level
  message : String
  span? : Option Span := none
  issue? : Option Issue := none
deriving DecidableEq, Repr

/-- A note with the chain of notes attached to it, each one attached to the one before. -/
structure Diagnostic where
  note : Note
  attached : List Note := []
deriving DecidableEq, Repr

namespace Diagnostic

/-- All notes of the chain, the main one first. -/
def notes (d : Diagnostic) : List Note := d.note :: d.attached

/-- Attaches a diagnostic to the main note, in the place of what was attached to it. -/
def attach (d child : Diagnostic) : Diagnostic := { d with attached := child.notes }

/-- A warning about a place in the source. -/
def warning (issue : Issue) (message : String) (span : Span) : Diagnostic :=
  { note := { level := .warning, message, span? := some span, issue? := some issue } }

/-- An error. -/
def error (issue? : Option Issue) (message : String) (span? : Option Span) : Diagnostic :=
  { note := { level := .error, message, span?, issue? } }

/-- Attaches a hint to the main note. -/
def withHelp (d : Diagnostic) (message : String) : Diagnostic :=
  d.attach { note := { level := .help, message } }

end Diagnostic

/-- Diagnostics in the order in which they were found. -/
structure Log where
  entries : Array Diagnostic := #[]
  /-- Whether the main note of some entry is an error. -/
  hasError : Bool := false
deriving DecidableEq, Repr

namespace Log

/-- The log without entries. -/
def empty : Log := {}

/-- Adds a diagnostic at the end. -/
def emit (log : Log) (d : Diagnostic) : Log :=
  { entries := log.entries.push d, hasError := log.hasError || d.note.level == .error }

/-- Adds diagnostics at the end, in order. -/
def emitAll (log : Log) (ds : List Diagnostic) : Log := ds.foldl emit log

/-- Whether nothing was found. -/
def isEmpty (log : Log) : Bool := log.entries.isEmpty

/-- The issues of the main notes, in order. -/
def issues (log : Log) : List Issue := log.entries.toList.filterMap (·.note.issue?)

end Log

end Acceptor
