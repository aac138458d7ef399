import Worksheet.Decimal.Literal

/-! The shortest decimal number that reads back as a given magnitude. With `n` digits the only
candidates are the two neighbours of the exact value among the numbers of `n` digits; the least
`n` with a candidate that reads back wins, and of two candidates the nearer one. -/

namespace Worksheet.Decimal

inductive Tie where
  | up
  | even
deriving DecidableEq

def Tie.choose (tie : Tie) (lower : Nat) : Nat :=
  match tie with
  | .up => lower + 1
  | .even => lower + lower % 2

def exact (bits : Nat) : Decimal := ⟨Binary64.units bits * Nat.pow 5 1074, -1074⟩

/-- The number of digits before the point of a positive magnitude: `10 ^ (n - 1) ≤ value` and
`value < 10 ^ n` for the result `n`. -/
def magnitudePoint (bits : Nat) : Int :=
  let units := Binary64.units bits
  if Binary64.one ≤ units then digitCount (units / Binary64.one)
  else (digitCount (units * Nat.pow 10 330 / Binary64.one) : Int) - 330

def neighbours (tie : Tie) (bits : Nat) (exponent : Int) : List Decimal :=
  let num := Binary64.units bits * Nat.pow 10 (-exponent).toNat
  let den := Binary64.one * Nat.pow 10 exponent.toNat
  let lower := num / den
  let rest := num % den
  let nearer :=
    if 2 * rest < den then lower
    else if den < 2 * rest then lower + 1
    else tie.choose lower
  [⟨nearer, exponent⟩, ⟨2 * lower + 1 - nearer, exponent⟩]

def ofDigitCount? (tie : Tie) (bits : Nat) (count : Nat) : Option Decimal :=
  (neighbours tie bits (magnitudePoint bits - count)).find? fun d => d.toBits = bits

def trimDigits (digits : Nat) (exponent : Int) : Decimal :=
  if digits = 0 then ⟨0, 0⟩
  else if digits % 10 = 0 then trimDigits (digits / 10) (exponent + 1)
  else ⟨digits, exponent⟩
termination_by digits

def trim (d : Decimal) : Decimal := trimDigits d.digits d.exponent

/-- The shortest number that reads back as `bits`. Seventeen digits always suffice; the exact value
stands behind them, so the result reads back in any case. -/
def shortest (tie : Tie) (bits : Nat) : Decimal :=
  if bits = 0 then ⟨0, 0⟩
  else trim (((List.range 17).findSome? fun n => ofDigitCount? tie bits (n + 1)).getD (exact bits))

end Worksheet.Decimal
