import Acceptor.Description.Basic

/-! # The sectioned layout

In the sectioned layout every line up to the tests names its meaning:

```text
%dfa
accept: q1
start: q0
states: q2 q3
transitions: q0,a,q1 q1,a,q0
tests:
aa
~
```

The sections may come in any order; a section that is given again replaces the earlier one.  The
section `tests` is the last one: every line after it is a test string, whatever it looks like. -/

namespace Acceptor

/-- A part of a description that a section sets. -/
inductive Section
  | accepting
  | start
  | states
  | transitions
deriving DecidableEq, Repr

/-- The section a key stands for. -/
def Section.ofKey? : String → Option Section
  | "accept" | "accepting" | "final" => some .accepting
  | "start" | "initial" => some .start
  | "states" => some .states
  | "transitions" | "delta" => some .transitions
  | _ => none

/-- A line of a sectioned description, taken apart.  A value begins right behind the colon. -/
inductive Header
  /-- The line has no colon, or nothing before it. -/
  | malformed
  /-- The line has a key that means nothing. -/
  | unknown (key : Token)
  /-- The line sets a part of the description. -/
  | known (part : Section) (key value : Token)
  /-- The line begins the test strings. -/
  | tests (value : Token)
deriving DecidableEq, Repr

/-- Takes a line apart at its first colon. -/
def Header.ofLine (line : Token) : Header :=
  match (Piece.ofToken line).cutAt? ':' with
  | none => .malformed
  | some (before, after) =>
    let key := before.trim.token
    if key.value = "" then .malformed
    else if key.value = "tests" then .tests after.token
    else
      match Section.ofKey? key.value with
      | some part => .known part key after.token
      | none => .unknown key

/-- The spellings of the empty test string. -/
def epsilonSpellings : List String := ["~", "epsilon", "ε", "ϵ", "ɛ"]

/-- A line of test strings, where the spellings of the empty string stand for it. -/
def testString (line : Token) : Token :=
  if line.value ∈ epsilonSpellings then { line with value := "" } else line

namespace Description

/-- Sets one part of a description to the words of a value. -/
def set (d : Description) (part : Section) (words : List Token) : Description :=
  match part with
  | .accepting => { d with accepting := words }
  | .start => { d with start := words.head? }
  | .states => { d with others := words }
  | .transitions => { d with transitions := readTransitions Transition.read? words }

/-- The report about a start section that names no state. -/
def emptyStart (line : Token) : Diagnostic :=
  .error (some .emptyStart) "start state cannot be empty" (some line.span)

/-- The reports about the words that the section on `line` sets a part to. -/
def problems (part : Section) (line : Token) (words : List Token) : List Diagnostic :=
  match part with
  | .accepting | .states => []
  | .start => extraStartWords words ++ if words.isEmpty then [emptyStart line] else []
  | .transitions =>
    malformedTransitions Transition.read? "<from>,<symbol>,<to> or <from><symbol><to>" words

/-- The report about a line that sets no section. -/
def malformedSection (line : Token) : Diagnostic :=
  .error (some .malformedSection) "expected a section of the form \x60key: value\x60"
    (some line.span)

/-- The report about a key that means nothing. -/
def unknownSection (key : Token) : Diagnostic :=
  .warning .unknownSection
    ("unknown section " ++ Text.quoteString key.value ++
      ", expected 'accept' | 'start' | 'states' | 'transitions' | 'tests'") key.span

/-- The report about a section that was given before. -/
def duplicateSection (key : Token) : Diagnostic :=
  .warning .duplicateSection "section already set, replacing the earlier one" key.span

/-- The report about a description that has no start section. -/
def missingStart : Diagnostic :=
  (Diagnostic.error (some .missingLine) "start state never defined" none).withHelp
    "add: start: <state>"

/-- The test strings of a tests section: what stands on its own line, unless that is blank, and all
lines that follow. -/
def readTests (value : Token) (rest : List Token) : List Token :=
  let inline := (Piece.ofToken value).trim
  (if inline.isEmpty then [] else [testString inline.token]) ++ rest.map testString

/-- What was read so far of a sectioned description. -/
structure Progress where
  description : Description := {}
  /-- The parts that were set. -/
  seen : List Section := []
  found : Array Diagnostic := #[]

/-- Adds a report. -/
def Progress.report (p : Progress) (d : Diagnostic) : Progress := { p with found := p.found.push d }

/-- Sets a part of the description as the section on `line` says. -/
def Progress.set (p : Progress) (part : Section) (line key value : Token) : Progress :=
  let p := if part ∈ p.seen then p.report (duplicateSection key) else p
  { description := p.description.set part value.words
    seen := part :: p.seen
    found := p.found ++ problems part line value.words }

/-- Reads lines until the tests section, which takes all lines behind it. -/
def readSections (p : Progress) : List Token → Progress
  | [] => p
  | line :: rest =>
    match Header.ofLine line with
    | .malformed => readSections (p.report (malformedSection line)) rest
    | .unknown key => readSections (p.report (unknownSection key)) rest
    | .known part key value => readSections (p.set part line key value) rest
    | .tests value => { p with description := { p.description with tests := readTests value rest } }

/-- Reads the lines of a source in the sectioned layout; the marker line is optional. -/
def readSectioned (lines : List Token) : Description × List Diagnostic :=
  let body := if lines.head?.any (·.value == sectionedMarker) then lines.tail else lines
  let p := readSections {} body
  (p.description, p.found.toList ++ if .start ∈ p.seen then [] else [missingStart])

end Description

end Acceptor
