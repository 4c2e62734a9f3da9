/-! # JSON

Just enough JSON to write reports: values, and their text with every item of a list or an object on
a line of its own, indented by two blanks for each level.  Strings escape the quote mark, the
backslash and the controls below the blank, and nothing else. -/

namespace Acceptor

/-- A JSON value.  The numbers of reports are counts and offsets. -/
inductive Json
  | null
  | bool (b : Bool)
  | number (n : Nat)
  | string (s : String)
  | list (items : List Json)
  | object (fields : List (String × Json))

namespace Json

/-- A hexadecimal digit, in lower case. -/
def hexDigit (n : Nat) : Char := (Nat.toDigits 16 n).headD '0'

/-- One character as it is written inside a string. -/
def escape (c : Char) : List Char :=
  if c = '\x22' then ['\\', '\x22']
  else if c = '\\' then ['\\', '\\']
  else if c = '\x08' then ['\\', 'b']
  else if c = '\x0c' then ['\\', 'f']
  else if c = '\n' then ['\\', 'n']
  else if c = '\r' then ['\\', 'r']
  else if c = '\t' then ['\\', 't']
  else if c.toNat < 0x20 then
    ['\\', 'u', '0', '0', hexDigit (c.toNat / 16), hexDigit (c.toNat % 16)]
  else [c]

/-- A string between quote marks. -/
def quote (s : String) : String :=
  String.ofList ('\x22' :: s.toList.flatMap escape ++ ['\x22'])

/-- The start of a line at the given level. -/
def newline (level : Nat) : String := "\n".pushn ' ' (2 * level)

mutual

/-- Writes a value behind `out`; the lines of its items are one level deeper than `level`. -/
def write (level : Nat) (out : String) : Json → String
  | .null => out ++ "null"
  | .bool b => out ++ (if b then "true" else "false")
  | .number n => out ++ toString n
  | .string s => out ++ quote s
  | .list [] => out ++ "[]"
  | .list (item :: rest) =>
    writeItems (level + 1) (write (level + 1) (out ++ "[" ++ newline (level + 1)) item) rest ++
      newline level ++ "]"
  | .object [] => out ++ "\x7b\x7d"
  | .object ((key, value) :: rest) =>
    writeFields (level + 1)
        (write (level + 1) (out ++ "\x7b" ++ newline (level + 1) ++ quote key ++ ": ") value)
        rest ++
      newline level ++ "\x7d"

/-- Writes the items of a list behind the first one. -/
def writeItems (level : Nat) (out : String) : List Json → String
  | [] => out
  | item :: rest => writeItems level (write level (out ++ "," ++ newline level) item) rest

/-- Writes the fields of an object behind the first one. -/
def writeFields (level : Nat) (out : String) : List (String × Json) → String
  | [] => out
  | (key, value) :: rest =>
    writeFields level (write level (out ++ "," ++ newline level ++ quote key ++ ": ") value) rest

end

/-- The text of a value. -/
def pretty (j : Json) : String := j.write 0 ""

end Json

end Acceptor
