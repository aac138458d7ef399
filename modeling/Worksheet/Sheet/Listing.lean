import Worksheet.Sheet.Cells

/-! The order in which formulas are listed: by depth, and by name within one depth. A cell has depth
zero when it reads no formula cell, and else one more than the deepest formula cell it reads. Sorting
the names by depths that are counted with a table, `Dependencies.sorted`, comes to the same order. -/

namespace Worksheet

abbrev Dependencies := List (String × List String)

namespace Dependencies

def names (left : Dependencies) : List String := left.map Prod.fst

def split (left : Dependencies) : Dependencies × Dependencies :=
  let names := Std.ExtTreeSet.ofList left.names
  left.partition fun entry => entry.2.all fun source => !names.contains source

/-- Splits cells by depth: a cell is in the next layer when no cell that it reads is left. Cells that
read each other in a circle share the last layer. -/
def layers (left : Dependencies) : List (List String) :=
  if _ : left.split.2.length < left.length then left.split.1.names :: layers left.split.2
  else if left.isEmpty then [] else [left.names]
termination_by left.length
decreasing_by assumption

end Dependencies

namespace Cells

def tellsReader (cells : Cells) (source name : String) : Bool :=
  match cells[source]? with
  | some cell => cell.readers.contains name
  | none => false

def dependencies (cells : Cells) : Dependencies :=
  cells.formulaNames.map fun name =>
    (name, cells.formulaNames.filter fun source => cells.tellsReader source name)

def listed (cells : Cells) : List String := cells.dependencies.layers.flatten

def listing (cells : Cells) : List (String × String) :=
  cells.listed.map fun name => (name, cells.textOf name)

end Cells

end Worksheet
