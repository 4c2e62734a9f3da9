import Acceptor.Description.Legacy
import Acceptor.Description.Sectioned

/-! # Reading a description

A source is read in the layout that is asked for.  If the choice is left open, a source whose first
non-blank line is the marker is sectioned, and any other source is legacy. -/

namespace Acceptor

/-- How the lines of a source are to be read. -/
inductive Layout
  /-- By the first line. -/
  | auto
  /-- By the place of each line. -/
  | legacy
  /-- By the key of each line. -/
  | sectioned
deriving DecidableEq, Repr

/-- How a source is to be read. -/
structure Options where
  layout : Layout := .auto
  /-- Whether to report a legacy line that is read as transitions although not all of its words have
  that length. -/
  flagAmbiguity : Bool := true
deriving DecidableEq, Repr

/-- The end of a source. -/
def endOfSource (source : String) : Span := .at (Text.byteLength source.toList)

/-- Whether lines are read in the sectioned layout. -/
def Layout.isSectioned (layout : Layout) (lines : List Token) : Bool :=
  match layout with
  | .auto => lines.head?.any (·.value == sectionedMarker)
  | .legacy => false
  | .sectioned => true

/-- Reads a source; all problems are reported, in the order in which they are met. -/
def Description.parse (source : String) (options : Options) : Description × List Diagnostic :=
  let lines := Text.lines source
  if options.layout.isSectioned lines then readSectioned lines
  else readLegacy options.flagAmbiguity (endOfSource source) lines

end Acceptor
