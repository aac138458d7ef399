import Worksheet.Sheet.Cells
import Worksheet.Sheet.Updates

/-! The state of an operation on cells. Every change first notes in the journal what the record was,
unless the journal has an earlier note, so the journal always leads back to the start. -/

namespace Worksheet

/-- The first version of every changed record; `none` for a cell that had no record. -/
abbrev Journal := Std.ExtTreeMap String (Option Cell)

def Journal.revert (journal : Journal) (cells : Cells) : Cells :=
  journal.foldl (fun cells name version =>
    match version with
    | some cell => cells.insert name cell
    | none => cells.erase name) cells

structure Draft where
  cells : Cells
  journal : Journal
  updates : Updates

namespace Draft

def start (cells : Cells) : Draft := ⟨cells, ∅, []⟩

def note (draft : Draft) (name : String) : Draft :=
  { draft with journal := draft.journal.insertIfNew name draft.cells[name]? }

def change (draft : Draft) (a : Address) (f : Cell → Cell) : Draft :=
  { draft.note a.name with
    cells := draft.cells.insert a.name (f (draft.cells[a.name]?.getD (Cell.blank a))) }

def drop (draft : Draft) (a : Address) : Draft :=
  { draft.note a.name with cells := draft.cells.erase a.name }

def setContent (draft : Draft) (a : Address) (content : Content) : Draft :=
  draft.change a fun cell => { cell with content := some content }

def setValue (draft : Draft) (a : Address) (value : Float) : Draft :=
  { draft.change a fun cell => { cell with value := value } with
    updates := draft.updates.record a value }

def link (draft : Draft) (reader target : Address) : Draft :=
  draft.change target fun cell => { cell with readers := cell.readers.insert reader.name }

def unlink (draft : Draft) (reader target : Address) : Draft :=
  match draft.cells[target.name]? with
  | none => draft
  | some cell =>
      let left : Cell := { cell with readers := cell.readers.erase reader.name }
      let changed := draft.change target fun _ => left
      if left.isIdle then changed.drop target else changed

def unlinkAll (draft : Draft) (base : Address) (formula : Formula) : Draft :=
  (formula.targets base).foldl (fun draft target => draft.unlink base target) draft

end Draft

/-- A step of an operation. A failure keeps the draft, for its journal. -/
abbrev Action := EStateM Fault Draft

end Worksheet
