/-! The operators and functions of formulas, and their values. -/

namespace Worksheet

inductive Operator where
  | add
  | sub
  | mul
  | div
  | min
  | max
deriving DecidableEq

namespace Operator

def symbol : Operator → String
  | .add => "+"
  | .sub => "-"
  | .mul => "*"
  | .div => "/"
  | .min => "min"
  | .max => "max"

def ofName? : String → Option Operator
  | "min" => some .min
  | "max" => some .max
  | _ => none

/-- The smaller number; what is not a number counts only beside another such. -/
def smaller (a b : Float) : Float :=
  if a.isNaN then b else if b.isNaN then a else if b < a then b else a

def larger (a b : Float) : Float :=
  if a.isNaN then b else if b.isNaN then a else if a < b then b else a

def value? : Operator → List Float → Option Float
  | .add, [a, b] => some (a + b)
  | .sub, [a] => some (-a)
  | .sub, [a, b] => some (a - b)
  | .mul, [a, b] => some (a * b)
  | .div, [a, b] => some (a / b)
  | .min, first :: rest => some (rest.foldl smaller first)
  | .max, first :: rest => some (rest.foldl larger first)
  | _, _ => none

end Operator

end Worksheet
