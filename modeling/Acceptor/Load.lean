import Acceptor.Description.Compile
import Acceptor.Description.Parse

/-! # Loading a source

Loading reads a description and builds its automaton.  It always succeeds; what is wrong with the
source stands in the log, the problems of reading before those of building. -/

namespace Acceptor

/-- What a source describes: an automaton, the strings to run it on, and what is wrong with it. -/
structure Loaded where
  automaton : Automaton
  tests : List String
  log : Log
deriving DecidableEq

/-- Loads a source. -/
def load (source : String) (options : Options) : Loaded :=
  let (description, readingProblems) := Description.parse source options
  let (automaton, buildingProblems) := description.compile
  { automaton
    tests := description.tests.map (·.value)
    log := (Log.empty.emitAll readingProblems).emitAll buildingProblems }

end Acceptor
