import Acceptor.Automaton.Simulator
import Acceptor.Main
import Acceptor.Proofs.Automaton.Edit
import Acceptor.Proofs.Automaton.Roster
import Acceptor.Proofs.Automaton.Refinement
import Acceptor.Proofs.Description.Calls
import Acceptor.Proofs.Automaton.Arena
import Acceptor.Proofs.Description.Unplaced
import Acceptor.Proofs.Text.Pieces
import Acceptor.Proofs.Text.OneLine
import Acceptor.Proofs.Description.Sections
import Acceptor.Proofs.Description.Outline
import Acceptor.Proofs.Description.Transition
import Acceptor.Proofs.Description.Layouts
import Acceptor.Proofs.Automaton.ByName
import Acceptor.Proofs.Description.Compile
import Acceptor.Proofs.Description.RoundTrip
import Acceptor.Proofs.Automaton.ExtendedStep
import Acceptor.Proofs.Text.Places
import Acceptor.Proofs.Description.LastSection
import Acceptor.Proofs.Description.Reports
import Acceptor.Proofs.Description.Faithful
import Acceptor.Proofs.Description.Start
import Acceptor.Proofs.Automaton.Edges
import Acceptor.Proofs.Description.Accounting
import Acceptor.Proofs.Automaton.Agreement
import Acceptor.Proofs.Description.ListingOrder
import Acceptor.Proofs.Description.SectionOrder
import Acceptor.Proofs.Diagnostic.Lines
import Acceptor.Proofs.Diagnostic.Snippet
import Acceptor.Proofs.Description.Continuation
import Acceptor.Proofs.Description.Ambiguity
import Acceptor.Proofs.Description.ByPlace
import Acceptor.Proofs.Description.Meaning
import Acceptor.Proofs.Description.CompileReports
import Acceptor.Proofs.Text.Moved
import Acceptor.Proofs.Diagnostic.Moved
import Acceptor.Proofs.Description.Moved
import Acceptor.Proofs.Text.LineEnds
import Acceptor.Proofs.Diagnostic.LineEnds
import Acceptor.Proofs.Description.LineTexts
import Acceptor.Proofs.Automaton.OneLine
import Acceptor.Proofs.Automaton.Course
import Acceptor.Proofs.Automaton.Stepping
import Acceptor.Proofs.Description.ByKey
import Acceptor.Proofs.Description.OneLine
import Acceptor.Proofs.Command.CommandLine
import Acceptor.Proofs.Command.Verdicts
import Acceptor.Proofs.Automaton.Widening
import Acceptor.Proofs.Description.Decoding
import Acceptor.Proofs.Automaton.Table
import Acceptor.Proofs.Text.Partition
import Acceptor.Proofs.Automaton.TableReading
import Acceptor.Proofs.Description.Underline
import Acceptor.Proofs.Diagnostic.ByOffsets
import Acceptor.Proofs.Diagnostic.Styling
import Acceptor.Proofs.Description.Marker
import Acceptor.Proofs.Diagnostic.Log
