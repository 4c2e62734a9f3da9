/-! # Positions in a source text

A `Span` is a range of byte offsets, and a `Located` value remembers the span it was read from.
Spans are plain data: nothing forces them to fit a particular text, and whoever shows one copes
with any two numbers. -/

namespace Acceptor

/-- The bytes from `start` up to, but not including, `stop`. -/
structure Span where
  start : Nat
  stop : Nat
deriving DecidableEq, Repr, Inhabited

/-- A value together with the place it was read from. -/
structure Located (α : Type) where
  value : α
  span : Span
deriving DecidableEq, Repr, Inhabited

/-- A piece of source text: a line, a word, a name. -/
abbrev Token := Located String

/-- The empty span at byte offset `n`. -/
def Span.at (n : Nat) : Span := ⟨n, n⟩

end Acceptor
