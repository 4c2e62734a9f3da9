import Acceptor.Command.Run

/-! # The program

Reads the file that the command line asks for, runs the command and shows what it leaves behind. -/

open Acceptor.Command

/-- The fault with a system's reason and number.  Some calls report the number negated, and their
reasons begin in lower case. -/
def systemFault (reason : String) (code : UInt32) : ReadFault :=
  .system reason.capitalize (min code.toNat (-code).toNat)

/-- The fault behind a system error. -/
def faultOf : IO.Error → ReadFault
  | .noFileOrDirectory _ code reason => systemFault reason code
  | .inappropriateType _ code reason => systemFault reason code
  | .permissionDenied _ code reason => systemFault reason code
  | .invalidArgument _ code reason => systemFault reason code
  | .resourceExhausted _ code reason => systemFault reason code
  | .hardwareFault code reason => systemFault reason code
  | .otherError code reason => systemFault reason code
  | e => .system (toString e) 0

/-- Reads a file as text. -/
def readText (path : String) : IO (Except ReadFault String) := do
  try return decode (← IO.FS.readBinFile path)
  catch e => return .error (faultOf e)

/-- Runs the command on the arguments of the program. -/
def main (arguments : List String) : IO UInt32 := do
  let source ← match file? arguments with
    | some path => readText path
    | none => pure (.error .notText)
  let stderr ← IO.getStderr
  let outcome := run (← stderr.isTty) (fun _ => source) arguments
  stderr.putStr outcome.stderr
  IO.print outcome.stdout
  return UInt32.ofNat outcome.code
