import Worksheet.Decimal.Layout
import Worksheet.Fault

/-! Reading tokens. The whole text is cut into lexemes before any of them is looked at; blanks
are dropped, and each other lexeme becomes one token. -/

namespace Worksheet.Token

/-- A number that is not finite has no token. -/
def numberOfChars? (cs : List Char) : Option Float :=
  match Decimal.ofChars? cs with
  | some d => if d.toBits < Decimal.Binary64.infinity then some d.toFloat else none
  | none => none

def kindOfLexeme (base : Address) (lexeme : Lexeme) : Except FormulaFault (Option Kind) :=
  let text := String.ofList lexeme.chars
  let column := lexeme.position.column
  match lexeme.kind with
  | .number =>
      match numberOfChars? lexeme.chars with
      | some x => .ok (some (.number x))
      | none => .error (.badNumber text column)
  | .reference =>
      match Reference.ofChars? base lexeme.chars with
      | some r => .ok (some (.reference r))
      | none => .error (.badReference text column)
  | .name => .ok (some (.name (String.ofList (lexeme.chars.map Char.toLower))))
  | .plus => .ok (some .plus)
  | .minus => .ok (some .minus)
  | .times => .ok (some .times)
  | .divide => .ok (some .divide)
  | .opening => .ok (some .opening)
  | .closing => .ok (some .closing)
  | .comma => .ok (some .comma)
  | .blank => .ok none

def ofLexemes (base : Address) : List Lexeme → Except FormulaFault (List Token)
  | [] => .ok []
  | lexeme :: rest => do
      let kind ← kindOfLexeme base lexeme
      let tokens ← ofLexemes base rest
      match kind with
      | some kind =>
          return ⟨kind, String.ofList lexeme.chars, lexeme.position.column⟩ :: tokens
      | none => return tokens

def scan (base : Address) (cs : List Char) : Except FormulaFault (List Token) :=
  match Lexeme.scan cs with
  | .ok lexemes => ofLexemes base lexemes
  | .error place => .error (.noLexeme place)

def scanToEnd (base : Address) (cs : List Char) : Except FormulaFault (List Token) :=
  (scan base cs).map fun tokens => tokens ++ [finish cs.length]

end Worksheet.Token
