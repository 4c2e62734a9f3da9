import Acceptor.Automaton.Trace

/-! # Running one symbol at a time

A simulator is a run that can be stopped and looked at between symbols.  A step consumes one symbol
or decides the run; once a run is decided, further steps change nothing and report nothing. -/

namespace Acceptor

/-- How a run was decided, and in which state. -/
inductive Verdict
  | accept (state : StateId)
  | reject (state : StateId)
deriving DecidableEq, Repr

/-- The state in which the run was decided. -/
def Verdict.state : Verdict → StateId
  | .accept state => state
  | .reject state => state

/-- A run under way. -/
structure Simulator where
  automaton : Automaton
  /-- The state the run is in. -/
  state : StateId
  /-- The byte offset of the next symbol. -/
  position : Nat
  /-- The symbols not yet consumed. -/
  rest : List Char
  /-- The decision, once there is one. -/
  verdict? : Option Verdict

/-- A run that has consumed nothing yet. -/
def Automaton.simulate (a : Automaton) (input : String) : Except RunError Simulator :=
  match a.start with
  | none => .error .missingStart
  | some q =>
    .ok { automaton := a, state := q, position := 0, rest := input.toList, verdict? := none }

namespace Simulator

/-- Consumes a symbol or decides the run.  The answer is what happened, which is nothing if the run
was decided before. -/
def step (s : Simulator) : Option RunEvent × Simulator :=
  match s.verdict? with
  | some _ => (none, s)
  | none =>
    match s.rest with
    | [] =>
      let accepted := s.automaton.isAccepting s.state
      (some (.finished s.state accepted),
        { s with verdict? := some (if accepted then .accept s.state else .reject s.state) })
    | c :: cs =>
      match s.automaton.step s.state c with
      | some next =>
        (some (.consumed s.state c next),
          { s with state := next, position := s.position + c.utf8Size, rest := cs })
      | none =>
        (some (.stuck s.state c s.position), { s with verdict? := some (.reject s.state) })

end Simulator

end Acceptor
