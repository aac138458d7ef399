import Std.Data.ExtTreeMap
import Std.Data.ExtTreeSet
import Worksheet.Formula.Read

/-! The cells of a sheet. A cell has a record, under its name, when it holds a formula or when some
formula reads it; the record keeps the names of the cells that read it, so that a change can be
carried on to them. -/

namespace Worksheet

structure Content where
  formula : Formula
  text : String

structure Cell where
  address : Address
  content : Option Content
  value : Float
  readers : Std.ExtTreeSet String

abbrev Cells := Std.ExtTreeMap String Cell

namespace Cell

def blank (a : Address) : Cell := ⟨a, none, 0, ∅⟩

/-- A record that says nothing: no formula, and nobody reads the cell. -/
def isIdle (cell : Cell) : Bool := cell.content.isNone && cell.readers.isEmpty

end Cell

namespace Cells

def content? (cells : Cells) (a : Address) : Option Content := cells[a.name]?.bind Cell.content

def valueAt (cells : Cells) (a : Address) : Float :=
  match cells[a.name]? with
  | some cell => cell.value
  | none => 0

def readers (cells : Cells) (a : Address) : Std.ExtTreeSet String :=
  match cells[a.name]? with
  | some cell => cell.readers
  | none => ∅

def textOf (cells : Cells) (name : String) : String :=
  match cells[name]?.bind Cell.content with
  | some content => content.text
  | none => ""

def formulaAt? (cells : Cells) (name : String) : Option Address :=
  cells[name]?.bind fun cell => cell.content.map fun _ => cell.address

def formulaNames (cells : Cells) : List String :=
  cells.keys.filter fun name => (cells.formulaAt? name).isSome

end Cells

end Worksheet
