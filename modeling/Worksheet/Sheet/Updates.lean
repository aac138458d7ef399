import Worksheet.Address

/-! The values that an operation computed. A cell keeps the place of its first computation and the
value of its last one. -/

namespace Worksheet

abbrev Updates := List (Address × Float)

namespace Updates

def record (cell : Address) (value : Float) : Updates → Updates
  | [] => [(cell, value)]
  | (other, old) :: rest =>
      if other = cell then (cell, value) :: rest else (other, old) :: record cell value rest

def merge (updates later : Updates) : Updates :=
  later.foldl (fun merged entry => record entry.1 entry.2 merged) updates

end Updates

end Worksheet
