import Worksheet.Reference

/-! The tokens of a formula. -/

namespace Worksheet

inductive Token.Kind where
  | number (value : Float)
  | reference (target : Reference)
  | name (text : String)
  | plus
  | minus
  | times
  | divide
  | opening
  | closing
  | comma
  | finish
deriving DecidableEq

/-- A token with the text it was read from and the column where that text starts. -/
structure Token where
  kind : Token.Kind
  text : String
  column : Nat
deriving DecidableEq

namespace Token

def finish (length : Nat) : Token := ⟨.finish, "<EOF>", length + 1⟩

def describe (token : Token) : String :=
  match token.kind with
  | .finish => "end of formula"
  | _ => "'" ++ token.text ++ "' at column " ++ toString token.column

end Token

end Worksheet
