import Acceptor.Automaton.Basic
import Acceptor.Description.Basic

/-! # From descriptions to automata

Every name of a description becomes a state, in the order in which the names first occur: the start,
the accepting states, the others.  Then the transitions are added in order, the last one for a state
and a symbol being the one that counts, and the start is bound.  Whatever cannot be added is left
out and reported, so the result is the best automaton the description allows. -/

namespace Acceptor.Description

/-- All names of states, with repetitions. -/
def names (d : Description) : List Token := d.start.toList ++ d.accepting ++ d.others

/-- The tokens whose text does not occur earlier, neither among `seen` nor in the list itself. -/
def firstOccurrencesFrom (seen : Std.ExtTreeSet String) (kept : Array Token) :
    List Token → List Token
  | [] => kept.toList
  | name :: rest =>
    if name.value ∈ seen then firstOccurrencesFrom seen kept rest
    else firstOccurrencesFrom (seen.insert name.value) (kept.push name) rest

/-- The tokens whose text does not occur earlier in the list. -/
def firstOccurrences (names : List Token) : List Token := firstOccurrencesFrom ∅ #[] names

/-- An automaton under construction, and what was reported so far. -/
structure Draft where
  automaton : Automaton := .empty
  found : Array Diagnostic := #[]

namespace Draft

/-- Adds a state, or reports why that is impossible. -/
def addName (accepting : Std.ExtTreeSet String) (draft : Draft) (name : Token) : Draft :=
  match draft.automaton.addState name.value (accepting.contains name.value) with
  | (.ok _, a) => { draft with automaton := a }
  | (.error e, a) =>
    { automaton := a, found := draft.found.push (.error none e.message (some name.span)) }

/-- The report about a transition whose state and symbol had an edge to `previous` before. -/
def redefined (a : Automaton) (t : Located Transition) (previous : StateId) : Diagnostic :=
  .warning .transitionRedefined
    ("transition from " ++ Text.quoteString t.value.source ++ " on " ++
      Text.quoteChar t.value.symbol ++ " redefined (previously to " ++
      Text.quoteString (a.nameOf previous) ++ ")") t.span

/-- The report about a transition that could not be added. -/
def dropped (t : Located Transition) (e : BuildError) : Diagnostic :=
  .warning .unknownStateReference (e.message ++ ", transition dropped") t.span

/-- Adds a transition, and reports if it could not be added or replaces an earlier one. -/
def addTransition (draft : Draft) (t : Located Transition) : Draft :=
  match draft.automaton.addTransition t.value.source t.value.symbol t.value.target with
  | (.ok none, a) => { draft with automaton := a }
  | (.ok (some previous), a) =>
    { automaton := a, found := draft.found.push (redefined a t previous) }
  | (.error e, a) => { automaton := a, found := draft.found.push (dropped t e) }

/-- Binds the start, or reports that there is no such state. -/
def setStart (draft : Draft) (name : Token) : Draft :=
  match draft.automaton.setStart name.value with
  | (.ok _, a) => { draft with automaton := a }
  | (.error e, a) =>
    { automaton := a
      found := draft.found.push (.error (some .unknownStateReference) e.message (some name.span)) }

end Draft

/-- The automaton that a description describes, and what is wrong with the description. -/
def compile (d : Description) : Automaton × List Diagnostic :=
  let accepting := Std.ExtTreeSet.ofList (d.accepting.map (·.value))
  let draft := (firstOccurrences d.names).foldl (Draft.addName accepting) {}
  let draft := d.transitions.foldl Draft.addTransition draft
  let draft := d.start.toList.foldl Draft.setStart draft
  (draft.automaton, draft.found.toList)

end Acceptor.Description
