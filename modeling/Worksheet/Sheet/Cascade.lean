import Worksheet.Sheet.Draft

/-! Recomputation. A cell is computed from the present values of the cells it reads, and then every
cell that reads it is recomputed in turn, depth first, so the last computation of a cell follows the
last one of everything it reads. A path that comes back to one of its own cells is a circle. -/

namespace Worksheet

mutual

/-- The value of a formula in `base`, from the present values of the cells it reads. Each of them is
told on the way that `base` reads it. -/
def evaluate (base : Address) : Formula → Action Float
  | .number x => pure x
  | .reference r =>
      match r.resolve? base with
      | none => throw (.formula (.readOutside base))
      | some target => do
          modify fun draft => draft.link base target
          let draft ← get
          return draft.cells.valueAt target
  | .apply operator operands => do
      let values ← evaluateAll base operands
      match operator.value? values with
      | some x => return x
      | none => throw (.operands operator values.length)

def evaluateAll (base : Address) : List Formula → Action (List Float)
  | [] => pure []
  | x :: xs => do
      let first ← evaluate base x
      let rest ← evaluateAll base xs
      return first :: rest

end

def settle (a : Address) : Action Unit := do
  let draft ← get
  match draft.cells.content? a with
  | some content =>
      let value ← evaluate a content.formula
      modify fun draft => draft.setValue a value
  | none => modify fun draft => draft.setValue a 0

/-- Passes by a cell that is not waiting. One that holds a formula is on the path that led here. -/
def pass (name : String) : Action Unit := do
  let draft ← get
  match draft.cells.formulaAt? name with
  | some _ => throw (.circular name)
  | none => pure ()

/-- Recomputes a formula cell and then the cells that read it. The formula cells that are not on the
path to it are `waiting`, and there are `count` of them. -/
def visit : Nat → List String → String → Action Unit
  | 0, _, name => pass name
  | count + 1, waiting, name =>
      if name ∈ waiting then do
        let draft ← get
        match draft.cells.formulaAt? name with
        | none => pure ()
        | some a =>
            settle a
            let draft ← get
            (draft.cells.readers a).toList.forM (visit count (waiting.erase name))
      else pass name

def cascade (waiting todo : List String) : Action Unit := todo.forM (visit waiting.length waiting)

theorem visit_waiting {waiting : List String} {name : String} (member : name ∈ waiting) :
    visit waiting.length waiting name = (do
      let draft ← get
      match draft.cells.formulaAt? name with
      | none => pure ()
      | some a =>
          settle a
          let draft ← get
          cascade (waiting.erase name) (draft.cells.readers a).toList) := by
  have positive := List.length_pos_of_mem member
  obtain ⟨count, same⟩ : ∃ count, waiting.length = count + 1 := ⟨waiting.length - 1, by omega⟩
  have smaller : (waiting.erase name).length = count := by
    rw [List.length_erase_of_mem member, same]
    rfl
  simp only [cascade, same, visit, if_pos member, smaller]

theorem visit_passed {waiting : List String} {name : String} (absent : name ∉ waiting) :
    visit waiting.length waiting name = pass name := by
  cases same : waiting.length with
  | zero => rfl
  | succ count => simp only [visit, if_neg absent]

theorem cascade_cons (waiting : List String) (name : String) (rest : List String) :
    cascade waiting (name :: rest) = (do
      visit waiting.length waiting name
      cascade waiting rest) := rfl

def recompute (todo : List String) : Action Unit := do
  let draft ← get
  cascade draft.cells.formulaNames todo

def install (a : Address) (formula : Formula) : Action Unit := do
  match formula.render a with
  | .error fault => throw fault
  | .ok text =>
      let draft ← get
      let changed := draft.setContent a ⟨formula, text⟩
      match draft.cells.content? a with
      | some old => set (changed.unlinkAll a old.formula)
      | none => set changed
      recompute [a.name]

/-- Takes the formula out of `a`, if there is one. The record goes as a whole; the readers of `a`
bring it back when they are recomputed. -/
def remove (a : Address) : Action Unit := do
  let draft ← get
  match draft.cells.content? a with
  | none => pure ()
  | some content =>
      set ((draft.unlinkAll a content.formula).drop a)
      recompute (draft.cells.readers a).toList

end Worksheet
