/-! Sixty-four bit floating point magnitudes as natural numbers. The bits of a magnitude, read as
a number, grow with its value, which is a whole number of units of `2 ^ (-1074)`; a quotient of
naturals is rounded to the nearest magnitude, and a tie goes to the even bits. -/

namespace Worksheet.Decimal.Binary64

/-- The leading bit of a full significand, `2 ^ 52`. -/
def leadingBit : Nat := 4503599627370496

/-- The bits of infinity, `2047 * 2 ^ 52`, and a bound on the bits of every finite magnitude. -/
def infinity : Nat := 9218868437227405312

def signBit : Nat := 9223372036854775808

def one : Nat := Nat.pow 2 1074

def roundQuotient (num den : Nat) : Nat :=
  let whole := num / den
  let rest := num % den
  if 2 * rest < den then whole
  else if den < 2 * rest then whole + 1
  else whole + whole % 2

/-- The magnitude nearest to `num / den`. The significand takes 53 binary digits of the quotient,
and all of them when the quotient is shorter, so consecutive binades meet: a significand rounded up
to `2 ^ 53` is the first one of the next binade. -/
def nearest (num den : Nat) : Nat :=
  let scaled := num * one
  let shift := Nat.log2 (scaled / den) - 52
  min infinity (shift * leadingBit + roundQuotient scaled (den * Nat.pow 2 shift))

def significand (bits : Nat) : Nat :=
  if bits < leadingBit then bits else leadingBit + bits % leadingBit

def shift (bits : Nat) : Nat := bits / leadingBit - 1

/-- The value of a finite magnitude, in units of `2 ^ (-1074)`. -/
def units (bits : Nat) : Nat := significand bits * Nat.pow 2 (shift bits)

inductive Shape where
  | nan
  | infinite (negative : Bool)
  | finite (negative : Bool) (bits : Nat)
deriving DecidableEq

def shape (x : Float) : Shape :=
  let word := x.toBits.toNat
  let negative := decide (signBit ≤ word)
  let bits := word % signBit
  if bits < infinity then .finite negative bits
  else if bits = infinity then .infinite negative
  else .nan

def toFloat (bits : Nat) : Float := Float.ofBits (UInt64.ofNat bits)

end Worksheet.Decimal.Binary64
