import Acceptor.Text.Blank
import Acceptor.Text.Bytes
import Acceptor.Text.Span

/-! # Lines and words

A source is cut into pieces at separators, and every piece knows the byte offset at which it
starts.  Lines are the pieces between line feeds, trimmed; words are the pieces between blanks;
in both cases empty pieces are dropped.  A single function, `pieces`, does all the cutting, so the
offsets of lines, of words and of the two sides of a colon are computed in one place.

* `Text.lines`     the trimmed, non-blank lines of a source
* `Text.words`     the words of a text that is placed at some byte offset
* `Piece.cutAt?`   the two sides of the first occurrence of a character -/

namespace Acceptor

/-- Consecutive characters of a source, with the byte offset of the first one. -/
structure Piece where
  start : Nat
  chars : List Char
deriving DecidableEq, Repr

namespace Piece

/-- The byte offset behind the last character. -/
def stop (p : Piece) : Nat := p.start + Text.byteLength p.chars

/-- The piece as a text with its span. -/
def token (p : Piece) : Token := ⟨String.ofList p.chars, ⟨p.start, p.stop⟩⟩

/-- The characters of a token, at the place the token was read from. -/
def ofToken (t : Token) : Piece := ⟨t.span.start, t.value.toList⟩

/-- The piece without its leading blanks, which move the start. -/
def trimStart (p : Piece) : Piece :=
  ⟨p.start + Text.byteLength (p.chars.takeWhile Text.isBlank), Text.trimStart p.chars⟩

/-- The piece without the blanks at either end. -/
def trim (p : Piece) : Piece :=
  ⟨p.trimStart.start, Text.trimEnd p.trimStart.chars⟩

/-- Whether the piece has no characters. -/
def isEmpty (p : Piece) : Bool := p.chars.isEmpty

/-- The pieces before and after the first `c`, which belongs to neither; `none` if there is none. -/
def cutAt? (c : Char) (p : Piece) : Option (Piece × Piece) :=
  match p.chars.span (· != c) with
  | (_, []) => none
  | (before, d :: after) =>
    some (⟨p.start, before⟩, ⟨p.start + Text.byteLength before + d.utf8Size, after⟩)

end Piece

namespace Text

/-- Cuts `cs`, which stands at byte offset `here`, into pieces.  The piece under way starts at
`start` and has the characters `taken`, last one first; `found` are the pieces before it. -/
def piecesFrom (sep : Char → Bool) (found : Array Piece) (start here : Nat) (taken : List Char) :
    List Char → List Piece
  | [] => (found.push ⟨start, taken.reverse⟩).toList
  | c :: cs =>
    if sep c then
      piecesFrom sep (found.push ⟨start, taken.reverse⟩) (here + c.utf8Size) (here + c.utf8Size) []
        cs
    else
      piecesFrom sep found start (here + c.utf8Size) (c :: taken) cs

/-- The pieces of `cs` between separators, in order; `cs` stands at byte offset `base`.  There is
one piece more than there are separators, and pieces may be empty. -/
def pieces (sep : Char → Bool) (base : Nat) (cs : List Char) : List Piece :=
  piecesFrom sep #[] base base [] cs

/-- The trimmed, non-blank lines of a source.  Only a line feed ends a line; a carriage return
before it is a blank and goes with the trimming. -/
def lines (source : String) : List Token :=
  (((pieces (· == '\n') 0 source.toList).map Piece.trim).filter (! ·.isEmpty)).map Piece.token

/-- The words of `text`, the maximal runs of characters that are not blank, where `text` stands at
byte offset `base`. -/
def words (text : String) (base : Nat) : List Token :=
  ((pieces isBlank base text.toList).filter (! ·.isEmpty)).map Piece.token

end Text

/-- The words of a line or of a part of one. -/
def Located.words (line : Token) : List Token := Text.words line.value line.span.start

end Acceptor
