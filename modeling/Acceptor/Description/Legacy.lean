import Acceptor.Description.Basic

/-! # The legacy layout

In the legacy layout every line has its meaning by its place:

```text
<accepting states>
<start state>
[<other states>]
<transitions>
<test strings>...
```

The line of other states may be missing.  Only its shape tells: if the first word of the third line
is three characters long, the line is taken to be the transitions.  Since a list of states can look
like that too, a line whose later words are not all three characters long can be reported as
ambiguous. -/

namespace Acceptor.Description

/-- Whether a word has the length of a transition. -/
def isThreeLong (word : Token) : Bool := word.value.length == 3

/-- Whether the third line is read as the transitions. -/
def readsAsTransitions (third : Token) : Bool := third.words.head?.any isThreeLong

/-- The report about a line read as transitions that has words of other lengths too. -/
def ambiguousLine (line : Token) : List Diagnostic :=
  match line.words.find? (! isThreeLong ·) with
  | none => []
  | some odd =>
    [(Diagnostic.warning .ambiguousLayout
      "line read as transitions because its first token is three characters long"
      line.span).withHelp
      (Text.quoteString odd.value ++
        " is not a transition; if this line lists states, rename the first one or use the '" ++
        sectionedMarker ++ "' layout")]

/-- The report about a line that is not there. -/
def missingLine (message : String) (span? : Option Span) : Diagnostic :=
  .error (some .missingLine) message span?

/-- Reads the line of transitions and the test strings behind it. -/
def readLegacyBody (d : Description) (line : Token) (rest : List Token) :
    Description × List Diagnostic :=
  ({ d with transitions := readTransitions Transition.compact? line.words, tests := rest },
    malformedTransitions Transition.compact? "<from><symbol><to>" line.words)

/-- Reads the lines of a source in the legacy layout, where `eof` is the end of the source. -/
def readLegacy (flagAmbiguity : Bool) (eof : Span) : List Token → Description × List Diagnostic
  | [] =>
    ({}, [missingLine "empty description, expected a line of accepting states" none])
  | [accepting] =>
    ({ accepting := accepting.words },
      [missingLine "expected the start state on the second line" (some eof)])
  | accepting :: start :: rest =>
    let d : Description := { accepting := accepting.words, start := start.words.head? }
    let (d, found) :=
      match rest with
      | [] => (d, [missingLine "expected a line of transitions" (some eof)])
      | third :: rest =>
        if readsAsTransitions third then
          let (d, found) := d.readLegacyBody third rest
          (d, (if flagAmbiguity then ambiguousLine third else []) ++ found)
        else
          let d := { d with others := third.words }
          match rest with
          | [] =>
            (d, [missingLine "expected a line of transitions after the state list" (some eof)])
          | line :: rest => d.readLegacyBody line rest
    (d, extraStartWords start.words ++ found)

end Acceptor.Description
