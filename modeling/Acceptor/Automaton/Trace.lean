import Acceptor.Automaton.Run

/-! # Traces

A trace is the list of everything that happens in a run: it starts, it consumes symbols one by one,
and it either finishes at the end of the input or gets stuck at a symbol without an edge. -/

namespace Acceptor

/-- One thing that happens in a run. -/
inductive RunEvent
  /-- The run begins in `state`. -/
  | started (state : StateId)
  /-- An edge leads from `source` on `symbol` to `target`. -/
  | consumed (source : StateId) (symbol : Char) (target : StateId)
  /-- There is no edge on `symbol`, which stands at byte offset `position` of the input. -/
  | stuck (state : StateId) (symbol : Char) (position : Nat)
  /-- The input is used up. -/
  | finished (state : StateId) (accepted : Bool)
deriving DecidableEq, Repr

/-- The event in words, with the state names of an automaton. -/
def RunEvent.describe (a : Automaton) : RunEvent → String
  | .started state => "starting at state " ++ a.nameOf state
  | .consumed source symbol target =>
    "at state " ++ a.nameOf source ++ ", reading symbol " ++ Text.quoteChar symbol ++ " -> " ++
      a.nameOf target
  | .stuck state symbol _ =>
    "no transition from state " ++ a.nameOf state ++ " on symbol " ++ Text.quoteChar symbol ++
      ", rejecting"
  | .finished state accepted =>
    "ended at state " ++ a.nameOf state ++ (if accepted then " (accepting)" else " (non-accepting)")

/-- What happened in a run, and whether it accepted. -/
structure Trace where
  events : List RunEvent
  accepted : Bool
deriving DecidableEq, Repr

namespace Automaton

/-- Continues a run in state `q` at byte offset `position`, after the given events. -/
def traceFrom (a : Automaton) (events : Array RunEvent) (q : StateId) (position : Nat) :
    List Char → Trace
  | [] => ⟨(events.push (.finished q (a.isAccepting q))).toList, a.isAccepting q⟩
  | c :: cs =>
    match a.step q c with
    | some r => a.traceFrom (events.push (.consumed q c r)) r (position + c.utf8Size) cs
    | none => ⟨(events.push (.stuck q c position)).toList, false⟩

/-- Runs the automaton on `input` and records everything that happens. -/
def trace (a : Automaton) (input : String) : Except RunError Trace :=
  match a.start with
  | none => .error .missingStart
  | some q => .ok (a.traceFrom #[.started q] q 0 input.toList)

end Automaton

end Acceptor
