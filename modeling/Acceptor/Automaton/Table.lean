import Acceptor.Automaton.Basic

/-! # The transition table

An automaton is shown as a table with a row for each state and a column for each symbol.  All cells
are as wide as the longest state name, counted in characters.  A row begins with an arrow for the
start state and a star for an accepting one; a dash stands where there is no edge. -/

namespace Acceptor

/-- The text with blanks added behind it until it is `width` characters long. -/
def Text.padRight (width : Nat) (text : String) : String :=
  text ++ "".pushn ' ' (width - text.length)

namespace Automaton

/-- The number of characters in the longest state name, and at least one. -/
def nameWidth (a : Automaton) : Nat :=
  a.states.foldl (fun width s => max width s.name.length) 1

/-- A cell of the table with the bar before it. -/
def tableCell (width : Nat) (text : String) : String := " | " ++ Text.padRight width text

/-- The first line: empty space above the state names, then the symbols. -/
def tableHeader (width : Nat) (alphabet : List Char) : String :=
  "".pushn ' ' (4 + width) ++
    String.join (alphabet.map fun symbol => tableCell width (String.singleton symbol))

/-- What the table shows where the edge on `symbol` out of `s` leads. -/
def tableTarget (a : Automaton) (s : State) (symbol : Char) : String :=
  match s.next? symbol with
  | some target => a.nameOf target
  | none => "-"

/-- The line of one state. -/
def tableRow (a : Automaton) (width : Nat) (alphabet : List Char) (id : StateId) (s : State) :
    String :=
  (if a.start = some id then "->" else "  ") ++ (if s.accepting then "*" else " ") ++ " " ++
    Text.padRight width s.name ++
    String.join (alphabet.map fun symbol => tableCell width (a.tableTarget s symbol))

/-- The lines of the table. -/
def tableLines (a : Automaton) : List String :=
  let width := a.nameWidth
  let alphabet := a.alphabet
  tableHeader width alphabet ::
    a.ids.filterMap fun id => (a.get? id).map (a.tableRow width alphabet id)

/-- The table as a text; every line ends in a line feed. -/
def table (a : Automaton) : String := String.join (a.tableLines.map (· ++ "\n"))

end Automaton

end Acceptor
