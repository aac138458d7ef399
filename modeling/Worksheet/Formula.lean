import Worksheet.Decimal.Layout
import Worksheet.Fault

/-! Formula trees: numbers, references, and operators applied to formulas. -/

namespace Worksheet

inductive Formula where
  | number (value : Float)
  | reference (target : Reference)
  | apply (operator : Operator) (operands : List Formula)

namespace Formula

mutual

def beq : Formula → Formula → Bool
  | .number x, .number y => x == y
  | .reference r, .reference s => decide (r = s)
  | .apply f xs, .apply g ys => decide (f = g) && beqAll xs ys
  | _, _ => false

def beqAll : List Formula → List Formula → Bool
  | [], [] => true
  | x :: xs, y :: ys => beq x y && beqAll xs ys
  | _, _ => false

end

instance : BEq Formula := ⟨beq⟩

mutual

def references : Formula → List Reference
  | .number _ => []
  | .reference r => [r]
  | .apply _ operands => referencesAll operands

def referencesAll : List Formula → List Reference
  | [] => []
  | x :: xs => references x ++ referencesAll xs

end

/-- The cells that a formula in `base` reads, from left to right. A reference that leads off the sheet
reads nothing. -/
def targets (base : Address) (formula : Formula) : List Address :=
  formula.references.filterMap (Reference.resolve? base)

inductive Strength where
  | additive
  | multiplicative
  | unary
  | atom
deriving DecidableEq

def Strength.rank : Strength → Nat
  | .additive => 1
  | .multiplicative => 2
  | .unary => 3
  | .atom => 4

def strength : Formula → Strength
  | .apply .add [_, _] => .additive
  | .apply .sub [_, _] => .additive
  | .apply .mul _ => .multiplicative
  | .apply .div _ => .multiplicative
  | .apply .sub _ => .unary
  | _ => .atom

def parenthesize (needed : Bool) (cs : List Char) : List Char :=
  if needed then '(' :: cs ++ [')'] else cs

def separate : List (List Char) → List Char
  | [] => []
  | [cs] => cs
  | cs :: rest => cs ++ ',' :: separate rest

def isCall : Operator → Bool
  | .min => true
  | .max => true
  | _ => false

mutual

/-- The text of a formula in the cell `base`. An operand is put in parentheses when it holds
together less strongly than its operator, and the right operand also when equally so. -/
def write (base : Address) : Formula → Except Fault (List Char)
  | .number x => .ok (Decimal.formulaChars x)
  | .reference r =>
      match r.write? base with
      | some cs => .ok cs
      | none => .error (.formula (.placedOutside base))
  | .apply operator operands =>
      if isCall operator then do
        let texts ← writeAll base operands
        return operator.symbol.toList ++ '(' :: separate texts ++ [')']
      else
        match operator, operands with
        | .sub, [x] => do
            let text ← write base x
            return '-' :: parenthesize (decide (x.strength.rank < Strength.atom.rank)) text
        | operator, [x, y] => do
            let rank := (strength (.apply operator [x, y])).rank
            let left ← write base x
            let right ← write base y
            return parenthesize (decide (x.strength.rank < rank)) left ++ operator.symbol.toList ++
              parenthesize (decide (y.strength.rank ≤ rank)) right
        | operator, operands => .error (.operands operator operands.length)

def writeAll (base : Address) : List Formula → Except Fault (List (List Char))
  | [] => .ok []
  | x :: xs => do
      let text ← write base x
      let texts ← writeAll base xs
      return text :: texts

end

def render (base : Address) (formula : Formula) : Except Fault String :=
  (formula.write base).map String.ofList

end Formula

end Worksheet
