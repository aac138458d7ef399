/-! Access to files that hold bytes, and the ways it fails. -/

namespace Worksheet

inductive FileFault where
  | notFound
  | notDirectory
  | isDirectory
  | nameTooLong
  | notText
  | system (code : Nat) (text : String)
deriving DecidableEq

namespace FileFault

def withCode (text : String) (code : Nat) : String :=
  text ++ " (os error " ++ toString code ++ ")"

def message : FileFault → String
  | .notFound => withCode "No such file or directory" 2
  | .notDirectory => withCode "Not a directory" 20
  | .isDirectory => withCode "Is a directory" 21
  | .nameTooLong => withCode "File name too long" 36
  | .notText => "stream did not contain valid UTF-8"
  | .system code text => withCode text code

end FileFault

/-- Reading and replacing whole files in a monad. A failure is an answer and stops nothing. -/
class FileAccess (m : Type → Type) where
  readBytes : String → m (Except FileFault ByteArray)
  replace : String → String → m (Except FileFault Unit)

def readText {m : Type → Type} [Monad m] [FileAccess m] (path : String) :
    m (Except FileFault String) := do
  match ← FileAccess.readBytes path with
  | .error fault => return .error fault
  | .ok bytes =>
      match String.fromUTF8? bytes with
      | some text => return .ok text
      | none => return .error .notText

end Worksheet
