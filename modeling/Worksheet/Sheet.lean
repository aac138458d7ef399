import Worksheet.Sheet.Cascade
import Worksheet.Sheet.Listing

/-! Sheets and their operations. An operation either happens as a whole or leaves the cells as
they were; the journal of the last one allows it to be undone. -/

namespace Worksheet

structure Sheet where
  cells : Cells
  journal : Journal

structure Entry where
  text : String
  value : Float
deriving DecidableEq

namespace Sheet

def empty : Sheet := ⟨∅, ∅⟩

/-- Runs an operation; a failure puts every changed cell back. -/
def transact (sheet : Sheet) (action : Action Unit) : Except Fault Updates × Sheet :=
  match action.run (Draft.start sheet.cells) with
  | .ok _ draft => (.ok draft.updates, ⟨draft.cells, draft.journal⟩)
  | .error fault draft => (.error fault, ⟨draft.journal.revert draft.cells, ∅⟩)

def named (text : String) : Action Address :=
  match Address.ofName? text with
  | some a => pure a
  | none => throw (.badName text)

def parsed (base : Address) (text : String) : Action Formula :=
  match Formula.read base text with
  | .ok formula => pure formula
  | .error fault => throw (.formula fault)

def enter (cell text : String) : Action Unit := do
  let a ← named cell
  let formula ← parsed a text
  install a formula

def erase (cell : String) : Action Unit :=
  match Address.ofName? cell with
  | some a => remove a
  | none => pure ()

def transfer (dest source : String) : Action Unit := do
  let a ← named dest
  let b ← named source
  let draft ← get
  match draft.cells.content? b with
  | none => remove a
  | some content =>
      match content.formula.render a with
      | .error fault => throw fault
      | .ok text =>
          let formula ← parsed a text
          install a formula

def edit (sheet : Sheet) (cell text : String) : Except Fault Updates × Sheet :=
  sheet.transact (enter cell text)

def delete (sheet : Sheet) (cell : String) : Except Fault Updates × Sheet :=
  sheet.transact (erase cell)

def copy (sheet : Sheet) (dest source : String) : Except Fault Updates × Sheet :=
  sheet.transact (transfer dest source)

def clear (_ : Sheet) : Sheet := empty

/-- Takes back the last operation, if it has not been taken back and did not fail. -/
def undo (sheet : Sheet) : Sheet := ⟨sheet.journal.revert sheet.cells, ∅⟩

def query (sheet : Sheet) (cell : String) : Entry :=
  match Address.ofName? cell with
  | some a => ⟨sheet.cells.textOf a.name, sheet.cells.valueAt a⟩
  | none => ⟨"", 0⟩

def listing (sheet : Sheet) : List (String × String) := sheet.cells.listing

def size (sheet : Sheet) : Nat := sheet.cells.formulaNames.length

def isEmpty (sheet : Sheet) : Bool := sheet.size == 0

/-- Edits cell after cell, and adds what is computed to `updates`; the first edit that fails ends it. -/
def replayFrom (sheet : Sheet) (updates : Updates) :
    List (String × String) → Except Fault Updates × Sheet
  | [] => (.ok updates, sheet)
  | (cell, text) :: rest =>
      match sheet.edit cell text with
      | (.ok later, next) => next.replayFrom (updates.merge later) rest
      | (.error fault, next) => (.error fault, next)

def replay (sheet : Sheet) (entries : List (String × String)) : Except Fault Updates × Sheet :=
  sheet.replayFrom [] entries

end Sheet

end Worksheet
