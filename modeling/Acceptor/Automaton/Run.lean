import Acceptor.Automaton.Basic

/-! # Running an automaton

A run starts in the start state and follows edges until the input is used up or there is no edge for
the next symbol.  It accepts when the input was used up in an accepting state. -/

namespace Acceptor

/-- Why an automaton cannot be run. -/
inductive RunError
  /-- There is no state to begin in. -/
  | missingStart
deriving DecidableEq, Repr

/-- The text of the error. -/
def RunError.message : RunError → String
  | .missingStart => "automaton has no start state"

namespace Automaton

/-- Follows edges from `q` as far as they go: the state reached, and the symbols left over, which
begin with the first one that has no edge. -/
def advance (a : Automaton) (q : StateId) : List Char → StateId × List Char
  | [] => (q, [])
  | c :: cs =>
    match a.step q c with
    | some r => a.advance r cs
    | none => (q, c :: cs)

/-- Whether the automaton accepts `input`. -/
def run (a : Automaton) (input : String) : Except RunError Bool :=
  match a.start with
  | none => .error .missingStart
  | some q =>
    match a.advance q input.toList with
    | (r, []) => .ok (a.isAccepting r)
    | (_, _ :: _) => .ok false

end Automaton

end Acceptor
