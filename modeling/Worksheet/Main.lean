import Worksheet.Command

/-! The program: one command on a sheet in a file, its answer on standard output, and a fault with
its code on standard error. -/

namespace Worksheet

/-- The fault of a system error. Some calls report the code with its sign turned. -/
def FileFault.ofCode (code : UInt32) (details : String) : FileFault :=
  let code := if code.toNat < 2147483648 then code.toNat else 4294967296 - code.toNat
  if code = 2 then .notFound
  else if code = 20 then .notDirectory
  else if code = 21 then .isDirectory
  else if code = 36 then .nameTooLong
  else .system code details.capitalize

def FileFault.ofError : IO.Error → FileFault
  | .noFileOrDirectory _ code details => .ofCode code details
  | .inappropriateType _ code details => .ofCode code details
  | .alreadyExists _ code details => .ofCode code details
  | .resourceBusy code details => .ofCode code details
  | .resourceVanished code details => .ofCode code details
  | .unsupportedOperation code details => .ofCode code details
  | .hardwareFault code details => .ofCode code details
  | .unsatisfiedConstraints code details => .ofCode code details
  | .illegalOperation code details => .ofCode code details
  | .protocolError code details => .ofCode code details
  | .timeExpired code details => .ofCode code details
  | .interrupted _ code details => .ofCode code details
  | .invalidArgument _ code details => .ofCode code details
  | .permissionDenied _ code details => .ofCode code details
  | .resourceExhausted _ code details => .ofCode code details
  | .noSuchThing _ code details => .ofCode code details
  | .otherError code details => .ofCode code details
  | .unexpectedEof => .ofCode 0 "unexpected end of file"
  | .userError text => .ofCode 0 text

def caught {α : Type} (action : IO α) : IO (Except FileFault α) := do
  try
    return .ok (← action)
  catch error =>
    return .error (.ofError error)

instance : FileAccess IO where
  readBytes path := caught (IO.FS.readBinFile path)
  replace path text := caught (IO.FS.writeFile path text)

end Worksheet

open Worksheet in
def main (arguments : List String) : IO UInt32 := do
  let outcome : Outcome ← Invocation.runArguments arguments
  IO.print outcome.output
  IO.eprint outcome.errors
  return outcome.code.toUInt32
