import Acceptor.Text.DefaultIgnorable
import Acceptor.Text.ExtendingMark
import Acceptor.Text.Unprintable

/-! # Quoted text

Names and symbols appear in messages between quote marks.  Inside the marks everything that could be
misread is escaped: the mark itself and the backslash by a backslash, the usual controls by a
letter, and every other character that is unprintable, is shown as nothing or is a mark extending
the one before it by its code point in hexadecimal.

Strings stand between double quotes, single characters between single quotes, and each kind escapes
only its own mark. -/

namespace Acceptor.Text

/-- The mark around a quoted string. -/
def doubleQuote : Char := '\x22'

/-- The mark around a quoted character. -/
def singleQuote : Char := '\x27'

/-- A character written by its code point, in lower-case hexadecimal between braces. -/
def codePointEscape (c : Char) : List Char :=
  ['\\', 'u', '\x7b'] ++ Nat.toDigits 16 c.toNat ++ ['\x7d']

/-- The letter that stands for a character behind a backslash, inside the quote mark `mark`. -/
def escapeLetter? (mark c : Char) : Option Char :=
  if c = '\x00' then some '0'
  else if c = '\t' then some 't'
  else if c = '\r' then some 'r'
  else if c = '\n' then some 'n'
  else if c = '\\' || c = mark then some c
  else none

/-- Whether a reader could overlook `c`, or take it for a part of its neighbours. -/
def isObscure (c : Char) : Bool := isExtendingMark c || isDefaultIgnorable c || isUnprintable c

/-- One character as it is written inside the quote mark `mark`. -/
def escape (mark c : Char) : List Char :=
  match escapeLetter? mark c with
  | some letter => ['\\', letter]
  | none => if isObscure c then codePointEscape c else [c]

/-- A string between double quotes. -/
def quoteString (s : String) : String :=
  String.ofList (doubleQuote :: s.toList.flatMap (escape doubleQuote) ++ [doubleQuote])

/-- A character between single quotes. -/
def quoteChar (c : Char) : String :=
  String.ofList (singleQuote :: escape singleQuote c ++ [singleQuote])

end Acceptor.Text
