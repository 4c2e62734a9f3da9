import Acceptor.Description.Transition
import Acceptor.Diagnostic.Basic
import Acceptor.Text.Piece
import Acceptor.Text.Quoted

/-! # Descriptions

A description is what a source text says about an automaton before any name is resolved: the names
of its states, its transitions, and the strings to run it on, each with its place in the source.

The two layouts a source can have share what stands in this module: how a list of transitions and a
start state are read from words, and what is reported about words that do not fit. -/

namespace Acceptor

/-- The parts of a description, each with its place in the source. -/
structure Description where
  /-- The names of the accepting states. -/
  accepting : List Token := []
  /-- The name of the start state. -/
  start : Option Token := none
  /-- The names of further states. -/
  others : List Token := []
  transitions : List (Located Transition) := []
  /-- The strings to run the automaton on. -/
  tests : List Token := []
deriving DecidableEq, Repr

namespace Description

/-- The words among `words` that read as transitions, in order. -/
def readTransitions (read? : String → Option Transition) (words : List Token) :
    List (Located Transition) :=
  words.filterMap fun word => (read? word.value).map fun t => ⟨t, word.span⟩

/-- The report about a word that is not a transition; `form` says what a transition looks like. -/
def malformedTransition (form : String) (word : Token) : Diagnostic :=
  (Diagnostic.warning .malformedTransitionToken
    ("malformed transition " ++ Text.quoteString word.value ++ ", skipped") word.span).withHelp
    ("transitions are written as " ++ form)

/-- The reports about the words that do not read as transitions, in order. -/
def malformedTransitions (read? : String → Option Transition) (form : String)
    (words : List Token) : List Diagnostic :=
  (words.filter fun word => (read? word.value).isNone).map (malformedTransition form)

/-- The reports about words behind the name of the start state. -/
def extraStartWords (words : List Token) : List Diagnostic :=
  words.tail.map fun word =>
    Diagnostic.warning .extraStartTokens
      ("unexpected " ++ Text.quoteString word.value ++ ", the start state is a single name")
      word.span

end Description

/-- The first line of a source in the sectioned layout. -/
def sectionedMarker : String := "%dfa"

end Acceptor
