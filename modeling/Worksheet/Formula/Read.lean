import Worksheet.Formula
import Worksheet.Token.Scan

/-! Reading formulas. The tokens are taken one by one; between two tokens the state holds what
stands unfinished to the left. A sum waits for its right term, a product for its right factor, and
a negation for its factor; each bracket that is still open keeps the state around it. A reader that
goes down the levels of the grammar, `Guarded.Cursor.parse`, comes to the same.

    sum     := product (('+' | '-') product)*
    product := factor (('*' | '/') factor)*
    factor  := '-' factor | NUMBER | REFERENCE | NAME '(' sum (',' sum)* ')' | '(' sum ')'
-/

namespace Worksheet.Formula

/-- What waits for a right operand between two brackets: the left part of a sum, the left part of
a product, and a number of negations. -/
structure Pending where
  sum : Option (Formula × Operator)
  product : Option (Formula × Operator)
  negations : Nat

namespace Pending

def empty : Pending := ⟨none, none, 0⟩

def negate (pending : Pending) : Pending := { pending with negations := pending.negations + 1 }

def complete (left : Option (Formula × Operator)) (right : Formula) : Formula :=
  match left with
  | some (left, operator) => .apply operator [left, right]
  | none => right

def negateTimes : Nat → Formula → Formula
  | 0, x => x
  | n + 1, x => .apply .sub [negateTimes n x]

def factor (pending : Pending) (x : Formula) : Formula := negateTimes pending.negations x

def finishProduct (pending : Pending) (x : Formula) : Formula :=
  complete pending.product (pending.factor x)

def finishSum (pending : Pending) (x : Formula) : Formula :=
  complete pending.sum (pending.finishProduct x)

def multiply (pending : Pending) (x : Formula) (operator : Operator) : Pending :=
  ⟨pending.sum, some (pending.finishProduct x, operator), 0⟩

def accumulate (pending : Pending) (x : Formula) (operator : Operator) : Pending :=
  ⟨some (pending.finishSum x, operator), none, 0⟩

end Pending

inductive Bracket where
  | group
  | call (operator : Operator) (operands : List Formula)

/-- What the next token may be: the start of a factor, the bracket that opens a call, or what
follows the given factor. -/
inductive Expecting where
  | factor
  | bracket (operator : Operator)
  | continuation (x : Formula)

structure Reading where
  pending : Pending
  outer : List (Bracket × Pending)
  expecting : Expecting

namespace Reading

def start : Reading := ⟨.empty, [], .factor⟩

def takeFactor (state : Reading) (token : Token) : Except FormulaFault Reading :=
  match token.kind with
  | .minus => .ok { state with pending := state.pending.negate }
  | .number x => .ok { state with expecting := .continuation (.number x) }
  | .reference r => .ok { state with expecting := .continuation (.reference r) }
  | .name text =>
      match Operator.ofName? text with
      | some operator => .ok { state with expecting := .bracket operator }
      | none => .error (.unknownFunction token)
  | .opening => .ok ⟨.empty, (.group, state.pending) :: state.outer, .factor⟩
  | _ => .error (.unexpected token)

def takeBracket (state : Reading) (operator : Operator) (token : Token) :
    Except FormulaFault Reading :=
  match token.kind with
  | .opening => .ok ⟨.empty, (.call operator [], state.pending) :: state.outer, .factor⟩
  | _ => .error (.unexpected token)

def takeContinuation (state : Reading) (x : Formula) (token : Token) :
    Except FormulaFault Reading :=
  match token.kind, state.outer with
  | .plus, _ => .ok { state with pending := state.pending.accumulate x .add, expecting := .factor }
  | .minus, _ => .ok { state with pending := state.pending.accumulate x .sub, expecting := .factor }
  | .times, _ => .ok { state with pending := state.pending.multiply x .mul, expecting := .factor }
  | .divide, _ => .ok { state with pending := state.pending.multiply x .div, expecting := .factor }
  | .comma, (.call operator operands, around) :: outer =>
      .ok ⟨.empty, (.call operator (operands ++ [state.pending.finishSum x]), around) :: outer,
        .factor⟩
  | .closing, (.call operator operands, around) :: outer =>
      .ok ⟨around, outer,
        .continuation (.apply operator (operands ++ [state.pending.finishSum x]))⟩
  | .closing, (.group, around) :: outer =>
      .ok ⟨around, outer, .continuation (state.pending.finishSum x)⟩
  | _, _ => .error (.unexpected token)

def step (state : Reading) (token : Token) : Except FormulaFault Reading :=
  match state.expecting with
  | .factor => state.takeFactor token
  | .bracket operator => state.takeBracket operator token
  | .continuation x => state.takeContinuation x token

def close (state : Reading) (finish : Token) : Except FormulaFault Formula :=
  match state.expecting, state.outer with
  | .continuation x, [] => .ok (state.pending.finishSum x)
  | _, _ => .error (.unexpected finish)

def run (state : Reading) : List Token → Except FormulaFault Reading
  | [] => .ok state
  | token :: rest => do
      let next ← state.step token
      next.run rest

end Reading

def ofTokens (tokens : List Token) (finish : Token) : Except FormulaFault Formula := do
  let state ← Reading.start.run tokens
  state.close finish

def read (base : Address) (text : String) : Except FormulaFault Formula := do
  let cs := text.toList
  let tokens ← Token.scan base cs
  ofTokens tokens (Token.finish cs.length)

end Worksheet.Formula
