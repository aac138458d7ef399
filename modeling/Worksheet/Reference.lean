import Worksheet.Address

/-! References from one cell to another. Each axis is either a fixed index or an offset from the
cell that holds the reference, so a formula can be placed in another cell unchanged. -/

namespace Worksheet

def Index.ofInt? (i : Int) : Option Index :=
  if bound : 0 ≤ i ∧ i < 4294967296 then some ⟨i.toNat, by omega⟩ else none

inductive Coord where
  | absolute (index : Int)
  | relative (offset : Int)
deriving DecidableEq

namespace Coord

def of (fixed : Bool) (index base : Index) : Coord :=
  if fixed then .absolute index.val else .relative (index.val - base.val)

def resolve? (base : Index) : Coord → Option Index
  | .absolute index => Index.ofInt? index
  | .relative offset => Index.ofInt? (base.val + offset)

def marker : Coord → List Char
  | .absolute _ => ['$']
  | .relative _ => []

end Coord

structure Reference where
  col : Coord
  row : Coord
deriving DecidableEq

namespace Reference

/-- Reads a cell name as a reference held by `base`. A dollar sign in front fixes the column, and
one further on the row. -/
def ofChars? (base : Address) (cs : List Char) : Option Reference := do
  let address ← Address.ofChars? cs
  return ⟨.of (cs.head? = some '$') address.col base.col,
    .of (cs.tail.contains '$') address.row base.row⟩

def ofName? (base : Address) (text : String) : Option Reference := ofChars? base text.toList

def resolve? (base : Address) (r : Reference) : Option Address := do
  let col ← r.col.resolve? base.col
  let row ← r.row.resolve? base.row
  return ⟨col, row⟩

def write? (base : Address) (r : Reference) : Option (List Char) :=
  (r.resolve? base).map fun target =>
    r.col.marker ++ Address.letters target.col.ordinal ++
      r.row.marker ++ Nat.toDigits 10 target.row.ordinal

end Reference

end Worksheet
