import Worksheet.Decimal.Shortest

/-! The two written forms of a floating point number: the plain one of formulas, which never has
an exponent, and the one of data files, which has a point or an exponent always. -/

namespace Worksheet.Decimal

def plain (d : Decimal) : List Char :=
  let digits := Nat.toDigits 10 d.digits
  if 0 ≤ d.exponent then digits ++ List.replicate d.exponent.toNat '0'
  else if d.point ≤ 0 then ['0', '.'] ++ List.replicate (-d.point).toNat '0' ++ digits
  else digits.take d.point.toNat ++ '.' :: digits.drop d.point.toNat

def scientific (d : Decimal) : List Char :=
  let digits := Nat.toDigits 10 d.digits
  let power := d.point - 1
  let fraction := if digits.length = 1 then [] else '.' :: digits.drop 1
  digits.take 1 ++ fraction ++ ['e', if power < 0 then '-' else '+'] ++
    Nat.toDigits 10 power.natAbs

/-- Plain from `10 ^ (-5)` up to `10 ^ 16`, with `.0` behind a whole number, else scientific. -/
def dataForm (d : Decimal) : List Char :=
  if -5 < d.point ∧ d.point ≤ 16 then
    if 0 ≤ d.exponent then d.plain ++ ['.', '0'] else d.plain
  else d.scientific

def signed (negative : Bool) (cs : List Char) : List Char := if negative then '-' :: cs else cs

def formulaChars (x : Float) : List Char :=
  match Binary64.shape x with
  | .nan => ['N', 'a', 'N']
  | .infinite negative => signed negative ['i', 'n', 'f']
  | .finite negative bits => signed negative (shortest .up bits).plain

/-- The form of data files: the shortest digits, a half to the even digit. What is not finite has
no such form. -/
def dataChars? (x : Float) : Option (List Char) :=
  match Binary64.shape x with
  | .nan => none
  | .infinite _ => none
  | .finite negative bits => some (signed negative (shortest .even bits).dataForm)

end Worksheet.Decimal
