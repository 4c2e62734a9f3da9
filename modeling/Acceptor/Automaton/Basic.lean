import Std.Data.ExtTreeMap
import Std.Data.ExtTreeSet
import Acceptor.Text.Quoted

/-! # Deterministic finite automata

An automaton keeps its states in an array and addresses them by their place in it.  States are made
and found by name: `index` maps every name to its id, and ids are handed out in the order in which
names are first added and never change afterwards.  Adding a state again under a name that is taken
empties that state in place, so edges that lead to it, and the start binding, survive.

The three editing operations, `addState`, `addTransition` and `setStart`, return their answer
together with the automaton as it is afterwards.  Only a failing `setStart` changes anything: it
leaves the automaton without a start state.

Maps are extensional: two automata with the same names, flags and edges are equal. -/

namespace Acceptor

/-- How many states an automaton can hold. -/
def stateLimit : Nat := 65536

/-- The place of a state in its automaton. -/
structure StateId where
  index : Nat
  index_lt : index < stateLimit
deriving DecidableEq, Repr

/-- The id with index `n`, if there can be such a state. -/
def StateId.ofNat? (n : Nat) : Option StateId :=
  if h : n < stateLimit then some ⟨n, h⟩ else none

/-- A named state with its outgoing edges, at most one for each symbol. -/
structure State where
  name : String
  accepting : Bool
  edges : Std.ExtTreeMap Char StateId := ∅
deriving DecidableEq

namespace State

/-- Where the edge on `symbol` leads. -/
def next? (s : State) (symbol : Char) : Option StateId := s.edges[symbol]?

/-- Leads the edge on `symbol` to `target`; the answer is where it led before. -/
def connect (s : State) (symbol : Char) (target : StateId) : Option StateId × State :=
  (s.next? symbol, { s with edges := s.edges.insert symbol target })

/-- The edges in the order of their symbols. -/
def transitions (s : State) : List (Char × StateId) := s.edges.toList

end State

/-- Why an editing operation was refused. -/
inductive BuildError
  /-- No state has this name. -/
  | unknownState (name : String)
  /-- The automaton is full. -/
  | tooManyStates
deriving DecidableEq, Repr

/-- The text of the error. -/
def BuildError.message : BuildError → String
  | .unknownState name => "state " ++ Text.quoteString name ++ " is not defined"
  | .tooManyStates => "too many states defined (limit is " ++ toString stateLimit ++ ")"

/-- How a state came to be added. -/
inductive Added
  /-- A new name got the next id. -/
  | fresh (id : StateId)
  /-- The name was taken; the state keeps its id and the edges into it, and loses its own edges. -/
  | replaced (id : StateId)
deriving DecidableEq, Repr

/-- The id of the added state. -/
def Added.id : Added → StateId
  | .fresh id => id
  | .replaced id => id

/-- Whether a state of that name was there before. -/
def Added.isReplaced : Added → Bool
  | .fresh _ => false
  | .replaced _ => true

/-- A deterministic finite automaton over characters, with named states. -/
structure Automaton where
  /-- The states, in the order in which their names were first added. -/
  states : Array State := #[]
  /-- Where each name stands in `states`. -/
  index : Std.ExtTreeMap String StateId := ∅
  /-- The state in which runs begin. -/
  start : Option StateId := none
deriving DecidableEq

/-- What an editing operation answers, and the automaton after it. -/
abbrev Edited (α : Type) := Except BuildError α × Automaton

/-- A state was asked for by an id that no state has. -/
structure OutOfBounds where
  size : Nat
  index : Nat
deriving DecidableEq, Repr

/-- The text of the error. -/
def OutOfBounds.message (e : OutOfBounds) : String :=
  "index out of bounds: the len is " ++ toString e.size ++ " but the index is " ++ toString e.index

namespace Automaton

/-- The automaton without states. -/
def empty : Automaton := {}

/-- The number of states. -/
def size (a : Automaton) : Nat := a.states.size

/-- Whether there are no states. -/
def isEmpty (a : Automaton) : Bool := a.states.isEmpty

/-- The state with the given id. -/
def get? (a : Automaton) (id : StateId) : Option State := a.states[id.index]?

/-- The state with the given id, which is expected to exist. -/
def get (a : Automaton) (id : StateId) : Except OutOfBounds State :=
  match a.get? id with
  | some s => .ok s
  | none => .error ⟨a.size, id.index⟩

/-- The id of the state with the given name. -/
def stateId? (a : Automaton) (name : String) : Option StateId := a.index[name]?

/-- The state with the given name. -/
def stateByName? (a : Automaton) (name : String) : Option State := (a.stateId? name).bind a.get?

/-- The name of a state; ids that no state has are shown as unknown. -/
def nameOf (a : Automaton) (id : StateId) : String :=
  match a.get? id with
  | some s => s.name
  | none => "<unknown>"

/-- Whether the state with the given id accepts. -/
def isAccepting (a : Automaton) (id : StateId) : Bool :=
  match a.get? id with
  | some s => s.accepting
  | none => false

/-- Where the edge on `symbol` out of a state leads. -/
def step (a : Automaton) (id : StateId) (symbol : Char) : Option StateId :=
  (a.get? id).bind (·.next? symbol)

/-- The ids of all states, in order. -/
def ids (a : Automaton) : List StateId := (List.range a.size).filterMap StateId.ofNat?

/-- The ids of the accepting states, in order. -/
def acceptingIds (a : Automaton) : List StateId := a.ids.filter a.isAccepting

/-- Every symbol that some edge carries, in order. -/
def alphabet (a : Automaton) : List Char :=
  let symbols : Std.ExtTreeSet Char :=
    a.states.foldl (fun symbols s => symbols.insertMany s.edges.keys) ∅
  symbols.toList

/-- Adds a state without edges.  A name that is taken keeps its id. -/
def addState (a : Automaton) (name : String) (accepting : Bool) : Edited Added :=
  match a.stateId? name with
  | some id =>
    (.ok (.replaced id), { a with states := a.states.setIfInBounds id.index { name, accepting } })
  | none =>
    match StateId.ofNat? a.size with
    | some id =>
      (.ok (.fresh id),
        { a with states := a.states.push { name, accepting }, index := a.index.insert name id })
    | none => (.error .tooManyStates, a)

/-- Makes the named state the start.  If there is no such state, the automaton is left without a
start state. -/
def setStart (a : Automaton) (name : String) : Edited StateId :=
  match a.stateId? name with
  | some id => (.ok id, { a with start := some id })
  | none => (.error (.unknownState name), { a with start := none })

/-- Leads the edge on `symbol` out of one named state to another; the answer is where it led before.
Nothing changes if either state is unknown. -/
def addTransition (a : Automaton) (source : String) (symbol : Char) (target : String) :
    Edited (Option StateId) :=
  match a.stateId? source with
  | none => (.error (.unknownState source), a)
  | some p =>
    match a.stateId? target with
    | none => (.error (.unknownState target), a)
    | some q =>
      (.ok (a.step p symbol),
        { a with states := a.states.modify p.index fun s => (s.connect symbol q).2 })

end Automaton

end Acceptor
