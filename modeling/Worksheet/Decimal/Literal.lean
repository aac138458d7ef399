import Worksheet.Decimal.Binary64

/-! Decimal numbers and the literals that denote them: digits with at most one point, then
perhaps an exponent. -/

namespace Worksheet

/-- The number `digits * 10 ^ exponent`. -/
structure Decimal where
  digits : Nat
  exponent : Int
deriving DecidableEq

namespace Decimal

def digitCount (n : Nat) : Nat := (Nat.toDigits 10 n).length

def point (d : Decimal) : Int := digitCount d.digits + d.exponent

/-- The bits of the nearest magnitude. A number of at least `10 ^ 309` is infinite and one below
`10 ^ (-324)` is zero, whatever its digits, so no large power is ever computed. -/
def toBits (d : Decimal) : Nat :=
  if d.digits = 0 then 0
  else if 309 < d.point then Binary64.infinity
  else if d.point ≤ -324 then 0
  else Binary64.nearest (d.digits * Nat.pow 10 d.exponent.toNat) (Nat.pow 10 (-d.exponent).toNat)

def toFloat (d : Decimal) : Float := Binary64.toFloat d.toBits

def splitFraction : List Char → List Char × List Char
  | '.' :: rest => (rest.takeWhile Char.isDigit, rest.dropWhile Char.isDigit)
  | rest => ([], rest)

def naturalOfChars? (cs : List Char) : Option Nat :=
  if cs ≠ [] ∧ cs.all Char.isDigit then some (Nat.ofDigitChars 10 cs 0) else none

def integerOfChars? : List Char → Option Int
  | '-' :: rest => (naturalOfChars? rest).map fun n => -(n : Int)
  | '+' :: rest => (naturalOfChars? rest).map fun n => (n : Int)
  | rest => (naturalOfChars? rest).map fun n => (n : Int)

def exponentOfChars? : List Char → Option Int
  | [] => some 0
  | c :: rest => if c = 'e' ∨ c = 'E' then integerOfChars? rest else none

def ofChars? (cs : List Char) : Option Decimal :=
  let whole := cs.takeWhile Char.isDigit
  let (fraction, rest) := splitFraction (cs.dropWhile Char.isDigit)
  if whole = [] ∧ fraction = [] then none
  else (exponentOfChars? rest).map fun exponent =>
    ⟨Nat.ofDigitChars 10 (whole ++ fraction) 0, exponent - fraction.length⟩

end Decimal

end Worksheet
