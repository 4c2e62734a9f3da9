/-! # Description files

A description file is read as a whole and has to be text.  Reading it gives the text or the fault
that stands in the way; if the system refuses, the reason and its number are those that it gives. -/

namespace Acceptor.Command

/-- Why a file cannot be read. -/
inductive ReadFault
  /-- The system refuses, with a reason and its number. -/
  | system (reason : String) (code : Nat)
  /-- The file is not text. -/
  | notText
deriving DecidableEq, Repr

/-- The text of the error. -/
def ReadFault.message : ReadFault → String
  | .system reason code => reason ++ " (os error " ++ toString code ++ ")"
  | .notText => "stream did not contain valid UTF-8"

/-- The contents of a file as text. -/
def decode (bytes : ByteArray) : Except ReadFault String :=
  match String.fromUTF8? bytes with
  | some text => .ok text
  | none => .error .notText

end Acceptor.Command
