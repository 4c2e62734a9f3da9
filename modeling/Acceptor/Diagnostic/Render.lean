import Acceptor.Diagnostic.Basic
import Acceptor.Text.Bytes

/-! # Showing diagnostics

A note is shown as a header line and, if it has a place in the source, as the source line with a row
of tildes below the place.  Places are shown only if they begin at a character of the source or at
its end; the tildes stop at the end of the line, and there is always at least one.

What is shown is a list of fragments, text or styling.  The styling is written as escape sequences
of a terminal, or dropped; the text is the same in both cases. -/

namespace Acceptor

/-- A change of the terminal's style. -/
inductive Style
  | reset
  | bold
  | red
  | green
  | yellow
  | cyan
deriving DecidableEq, Repr

/-- The escape sequence that sets a style. -/
def Style.code : Style → String
  | .reset => "\x1b[0;22m"
  | .bold => "\x1b[1m"
  | .red => "\x1b[31m"
  | .green => "\x1b[32m"
  | .yellow => "\x1b[33m"
  | .cyan => "\x1b[36m"

/-- The colour of a level's label. -/
def Level.style : Level → Style
  | .warning => .yellow
  | .error => .red
  | .help => .green

/-- A stretch of text, or a change of style. -/
inductive Fragment
  | text (text : String)
  | style (style : Style)
deriving DecidableEq, Repr

/-- The fragment as written; styling disappears unless `color` is set. -/
def Fragment.write (color : Bool) : Fragment → String
  | .text t => t
  | .style s => if color then s.code else ""

/-- A line of the source with a mark below a part of it. -/
structure Snippet where
  /-- The number of the line, counted from one. -/
  number : Nat
  /-- The characters of the line, without carriage returns at its end. -/
  line : List Char
  /-- How many characters of the line stand before the mark. -/
  column : Nat
  /-- How many characters are marked. -/
  width : Nat
deriving DecidableEq, Repr

namespace Snippet

/-- The snippet for a span of `source`, unless the span starts past the end of the source or inside
a character.  A span that ends before it starts, or inside a character, marks nothing. -/
def of? (source : List Char) (span : Span) : Option Snippet :=
  match Text.splitAtByte? span.start source with
  | none => none
  | some (before, after) =>
    let lineBefore := (before.reverse.takeWhile (· != '\n')).reverse
    let lineAfter := after.takeWhile (· != '\n')
    let bytes := min (span.stop - span.start) (Text.byteLength lineAfter)
    some {
      number := before.count '\n' + 1
      line := ((lineBefore ++ lineAfter).reverse.dropWhile (· == '\r')).reverse
      column := lineBefore.length
      width :=
        match Text.splitAtByte? bytes lineAfter with
        | some (marked, _) => marked.length
        | none => 0 }

/-- The source line after its number, with every tab as one space, and below it the mark. -/
def fragments (s : Snippet) : List Fragment :=
  let number := toString s.number
  [.style .bold, .style .cyan, .text (number ++ ": "), .style .reset,
    .text (String.ofList (s.line.map fun c => if c = '\t' then ' ' else c) ++ "\n"),
    .style .bold, .style .cyan, .text ("".pushn ' ' (number.length + 2)),
    .text ("".pushn ' ' s.column ++ "".pushn '~' (max 1 s.width)), .style .reset, .text "\n"]

end Snippet

namespace Note

/-- The line with the level and the message. -/
def header (n : Note) : List Fragment :=
  [.style .bold, .style n.level.style, .text n.level.label, .style .reset, .style .bold,
    .text (": " ++ n.message), .style .reset, .text "\n"]

/-- The note as it is shown next to the source it is about. -/
def fragments (source : List Char) (n : Note) : List Fragment :=
  n.header ++
    match n.span?.bind (Snippet.of? source) with
    | some snippet => snippet.fragments
    | none => []

end Note

/-- The whole chain of notes as a text, each note below the one it is attached to. -/
def Diagnostic.render (source : String) (color : Bool) (d : Diagnostic) : String :=
  String.join ((d.notes.flatMap (·.fragments source.toList)).map (·.write color))

/-- Every entry of a log as a text. -/
def Log.render (source : String) (color : Bool) (log : Log) : List String :=
  log.entries.toList.map (·.render source color)

end Acceptor
