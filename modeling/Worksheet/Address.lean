/-! Cell addresses: a column and a row below `2 ^ 32`, and the names that denote them.
A name is a column numeral over the letters followed by a row numeral from one; a dollar sign
may stand before either part, and a letter counts the same in both cases. -/

namespace Worksheet

/-- A column or a row, counted from zero: one of `2 ^ 32`. -/
abbrev Index := Fin 4294967296

/-- The index whose ordinal, counted from one, is `ordinal`. The last index has no ordinal that a
name can carry. -/
def Index.ofOrdinal? (ordinal : Nat) : Option Index :=
  if bound : 0 < ordinal ∧ ordinal < 4294967296 then some ⟨ordinal - 1, by omega⟩ else none

def Index.ordinal (index : Index) : Nat := index.val + 1

structure Address where
  col : Index
  row : Index
deriving DecidableEq

namespace Address

def origin : Address := ⟨0, 0⟩

def letter (value : Nat) : Char := Char.ofNat ('a'.toNat + value)

def letterValue (c : Char) : Nat := c.toLower.toNat - 'a'.toNat + 1

/-- The column numeral of an ordinal: bijective base 26, `a` for one and `z` for 26. -/
def letters (ordinal : Nat) : List Char :=
  if ordinal = 0 then [] else letters ((ordinal - 1) / 26) ++ [letter ((ordinal - 1) % 26)]
termination_by ordinal
decreasing_by omega

def lettersValue (cs : List Char) : Nat :=
  cs.foldl (fun value c => 26 * value + letterValue c) 0

/-- The canonical name: lower case, no dollar signs, no leading zeros. -/
def nameChars (address : Address) : List Char :=
  letters address.col.ordinal ++ Nat.toDigits 10 address.row.ordinal

def name (address : Address) : String := String.ofList address.nameChars

def dropMarker : List Char → List Char
  | '$' :: rest => rest
  | cs => cs

def ofLetters? (cs : List Char) : Option Index := Index.ofOrdinal? (lettersValue cs)

def ofDigits? (cs : List Char) : Option Index :=
  if cs.all Char.isDigit then Index.ofOrdinal? (Nat.ofDigitChars 10 cs 0) else none

/-- Reads a name. Empty letters or digits count as ordinal zero, which no index has. -/
def ofChars? (cs : List Char) : Option Address := do
  let unmarked := dropMarker cs
  let col ← ofLetters? (unmarked.takeWhile Char.isAlpha)
  let row ← ofDigits? (dropMarker (unmarked.dropWhile Char.isAlpha))
  return ⟨col, row⟩

def ofName? (text : String) : Option Address := ofChars? text.toList

def canonicalName? (text : String) : Option String := (ofName? text).map name

end Address

end Worksheet
