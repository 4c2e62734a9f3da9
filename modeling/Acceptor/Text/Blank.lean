/-! # White space

A character is *blank* when it has the Unicode property `White_Space`.  Names, test strings and
section keys are delimited by blanks, so this one predicate decides where every token begins and
ends.  `trim` works on lists of characters, the form in which all texts of this library are taken
apart.

A set of characters is a list of closed ranges of code points in ascending order; `inRanges` looks
a code point up and stops at the first range that begins above it. -/

namespace Acceptor.Text

/-- Whether `n` lies in one of the closed ranges, which are listed in ascending order. -/
def inRanges : List (Nat × Nat) → Nat → Bool
  | [], _ => false
  | (lo, hi) :: rest, n => lo ≤ n && (n ≤ hi || inRanges rest n)

/-- Whether the ranges are non-empty, ascending and not adjacent, as `inRanges` expects. -/
def ascending : List (Nat × Nat) → Bool
  | [] => true
  | [(lo, hi)] => lo ≤ hi
  | (lo, hi) :: (lo', hi') :: rest => lo ≤ hi && hi + 1 < lo' && ascending ((lo', hi') :: rest)

/-- The 25 code points with the Unicode property `White_Space`. -/
def blankRanges : List (Nat × Nat) :=
  [(0x09, 0x0D), (0x20, 0x20), (0x85, 0x85), (0xA0, 0xA0), (0x1680, 0x1680), (0x2000, 0x200A),
   (0x2028, 0x2029), (0x202F, 0x202F), (0x205F, 0x205F), (0x3000, 0x3000)]

example : ascending blankRanges = true := by decide

/-- Whether `c` is white space. -/
def isBlank (c : Char) : Bool := inRanges blankRanges c.toNat

/-- Characters that only look like blanks (separators of the C0 block, zero-width characters). -/
example : ['\x1c', '\x1f', '\u180e', '\u200b', '\ufeff'].any isBlank = false := by decide

/-- `cs` without the blanks at its front. -/
def trimStart (cs : List Char) : List Char := cs.dropWhile isBlank

/-- `cs` without the blanks at its back. -/
def trimEnd (cs : List Char) : List Char := (cs.reverse.dropWhile isBlank).reverse

/-- `cs` without the blanks at either end. -/
def trim (cs : List Char) : List Char := trimEnd (trimStart cs)

end Acceptor.Text
