import Worksheet.Proofs.Sheet.Journal
import Worksheet.Proofs.Sheet.Replacing

/-! Histories. An operation that fails leaves a sheet as it was, and one that succeeds leads from cells
at rest to cells at rest, so whatever a history has led to is at rest. -/

namespace Worksheet

open Relation Cells

inductive Operation where
  | edit (cell text : String)
  | delete (cell : String)
  | copy (dest source : String)
  | clear
  | undo

structure Cells.Stable (cells : Cells) : Prop where
  intact : cells.Intact
  nameable : ∀ a formula, cells.formula? a = some formula → a.Nameable

inductive Cells.Refuses (cells : Cells) (cell text : String) : Fault → Prop
  | name (unread : Address.ofName? cell = none) : Refuses cells cell text (.badName cell)
  | formula {a : Address} {cause : FormulaFault} (named : Address.ofName? cell = some a)
      (unread : Formula.read a text = .error cause) : Refuses cells cell text (.formula cause)
  | circular {a : Address} {formula : Formula} (named : Address.ofName? cell = some a)
      (read : Formula.read a text = .ok formula) (circle : cells.ClosesCircle a formula) :
      Refuses cells cell text (.circular a.name)

theorem Cells.stable_empty : Cells.Stable ∅ := by
  refine ⟨intact_empty, fun a formula held => ?_⟩
  unfold formula? content? at held
  rw [Std.ExtTreeMap.getElem?_empty] at held
  cases held

theorem Cells.Stable.update {cells next : Cells} {a : Address} {new : Option Formula}
    (stable : cells.Stable) (nameable : a.Nameable) (intact : next.Intact)
    (formulas : next.formula? = Function.update cells.formula? a new) : next.Stable := by
  refine ⟨intact, fun c formula held => ?_⟩
  by_cases same : c = a
  · exact same ▸ nameable
  · rw [formulas, Function.update_of_ne same] at held
    exact stable.nameable c formula held

namespace Sheet

/-- A sheet with stable cells whose journal leads back to stable cells. -/
structure Stable (sheet : Sheet) : Prop where
  now : sheet.cells.Stable
  before : sheet.undo.cells.Stable

def perform (sheet : Sheet) : Operation → Except Fault Updates × Sheet
  | .edit cell text => sheet.edit cell text
  | .delete cell => sheet.delete cell
  | .copy dest source => sheet.copy dest source
  | .clear => (.ok [], sheet.clear)
  | .undo => (.ok [], sheet.undo)

/-- The sheet that a history leads to, failed operations included. -/
def run (sheet : Sheet) (history : List Operation) : Sheet :=
  history.foldl (fun sheet operation => (sheet.perform operation).2) sheet

def after (history : List Operation) : Sheet := empty.run history

section

variable {holds : Draft → Prop} {draft : Draft} {failed : Fault → Draft → Prop}

theorem ends_named {text : String} {done : Address → Draft → Prop}
    (found : ∀ a, Address.ofName? text = some a → done a draft)
    (missing : Address.ofName? text = none → failed (.badName text) draft) :
    Ends (named text) draft done failed := by
  unfold named
  split
  next a same => exact found a same
  next same => exact missing same

theorem ends_parsed {base : Address} {text : String} {done : Formula → Draft → Prop}
    (found : ∀ formula, Formula.read base text = .ok formula → done formula draft)
    (missing : ∀ cause, Formula.read base text = .error cause → failed (.formula cause) draft) :
    Ends (parsed base text) draft done failed := by
  unfold parsed
  split
  next formula same => exact found formula same
  next cause same => exact missing cause same

end

variable {sheet : Sheet}

theorem undo_of_unwritten (cells : Cells) : (Sheet.mk cells ∅).undo = ⟨cells, ∅⟩ := by
  unfold undo
  simp only
  rw [Journal.revert_empty]

structure Edited (sheet : Sheet) (cell text : String) (a : Address) (formula : Formula)
    (next : Sheet) : Prop where
  named : Address.ofName? cell = some a
  read : Formula.read a text = .ok formula
  intact : next.cells.Intact
  formulas : next.cells.formula? = Function.update sheet.cells.formula? a (some formula)
  free : ¬ sheet.cells.ClosesCircle a formula
  back : next.undo.cells = sheet.cells

theorem edit_cases (intact : sheet.cells.Intact) (cell text : String) :
    (∃ fault, sheet.cells.Refuses cell text fault ∧
      sheet.edit cell text = (.error fault, ⟨sheet.cells, ∅⟩)) ∨
    (∃ a formula updates next, sheet.Edited cell text a formula next ∧
      sheet.edit cell text = (.ok updates, next)) := by
  have ends : Ends (enter cell text) (Draft.start sheet.cells)
      (fun _ next => ∃ a formula, Address.ofName? cell = some a ∧
        Formula.read a text = .ok formula ∧ next.cells.Intact ∧
        next.cells.formula? = Function.update sheet.cells.formula? a (some formula) ∧
        ¬ sheet.cells.ClosesCircle a formula)
      (fun fault _ => sheet.cells.Refuses cell text fault) := by
    unfold enter
    rw [ends_bind]
    refine ends_named (fun a found => ?_) (fun missing => .name missing)
    rw [ends_bind]
    refine ends_parsed (fun formula read => ?_) (fun cause unread => .formula found unread)
    refine (install_ends intact (Formula.wellFormed_of_read read)).mono ?_ ?_
    · intro _ next done
      exact ⟨a, formula, found, read, done.1, done.2.1, done.2.2⟩
    · intro fault next failed
      obtain ⟨same, circle⟩ := failed
      rw [same]
      exact .circular found read circle
  -- The journal is followed beside the cells: what the action does, and that it can be taken back.
  rcases transact_cases (enter_restores sheet.cells cell text) ends with
    refused | ⟨draft, done, back, result⟩
  · exact .inl refused
  · obtain ⟨a, formula, found, read, rest, formulas, free⟩ := done
    exact .inr ⟨a, formula, draft.updates, ⟨draft.cells, draft.journal⟩,
      ⟨found, read, rest, formulas, free, back⟩, result⟩

theorem delete_cases (intact : sheet.cells.Intact) (cell : String) :
    ∃ updates next, sheet.delete cell = (.ok updates, next) ∧ next.cells.Intact ∧
      next.undo.cells = sheet.cells ∧ next.cells.formula? =
        match Address.ofName? cell with
        | some a => Function.update sheet.cells.formula? a none
        | none => sheet.cells.formula? := by
  have ends : Ends (erase cell) (Draft.start sheet.cells)
      (fun _ next => next.cells.Intact ∧ next.cells.formula? =
        match Address.ofName? cell with
        | some a => Function.update sheet.cells.formula? a none
        | none => sheet.cells.formula?)
      (fun _ _ => False) := by
    unfold erase
    cases Address.ofName? cell with
    | none => exact ⟨intact, rfl⟩
    | some a => exact remove_ends a intact
  rcases transact_cases (erase_restores sheet.cells cell) ends with
    refused | ⟨draft, done, back, result⟩
  · obtain ⟨_, never, _⟩ := refused
    exact never.elim
  · exact ⟨draft.updates, ⟨draft.cells, draft.journal⟩, result, done.1, back, done.2⟩

theorem copy_cases (intact : sheet.cells.Intact) (dest source : String) :
    (∃ fault, sheet.copy dest source = (.error fault, ⟨sheet.cells, ∅⟩)) ∨
    (∃ a new updates next, Address.ofName? dest = some a ∧
      sheet.copy dest source = (.ok updates, next) ∧ next.cells.Intact ∧
      next.undo.cells = sheet.cells ∧
      next.cells.formula? = Function.update sheet.cells.formula? a new) := by
  have ends : Ends (transfer dest source) (Draft.start sheet.cells)
      (fun _ next => ∃ a new, Address.ofName? dest = some a ∧ next.cells.Intact ∧
        next.cells.formula? = Function.update sheet.cells.formula? a new)
      (fun _ _ => True) := by
    unfold transfer
    rw [ends_bind]
    refine ends_named (fun a found => ?_) (fun _ => trivial)
    rw [ends_bind]
    refine ends_named (fun b _ => ?_) (fun _ => trivial)
    rw [ends_bind, ends_get]
    split
    · refine (remove_ends a intact).mono (fun _ next done => ?_) (fun _ _ never => never.elim)
      exact ⟨a, none, found, done.1, done.2⟩
    · split
      · exact trivial
      · rw [ends_bind]
        refine ends_parsed (fun formula read => ?_) (fun _ _ => trivial)
        refine (install_ends intact (Formula.wellFormed_of_read read)).mono
          (fun _ next done => ?_) (fun _ _ _ => trivial)
        exact ⟨a, some formula, found, done.1, done.2.1⟩
  rcases transact_cases (transfer_restores sheet.cells dest source) ends with
    ⟨fault, _, result⟩ | ⟨draft, done, back, result⟩
  · exact .inl ⟨fault, result⟩
  · obtain ⟨a, new, found, rest, formulas⟩ := done
    exact .inr ⟨a, new, draft.updates, ⟨draft.cells, draft.journal⟩, found, result, rest, back,
      formulas⟩

/-- One changed formula, in a cell that a name denotes, leaves stable cells stable. -/
theorem stable_of_update {next : Sheet} {a : Address} {new : Option Formula}
    (stable : sheet.cells.Stable) (nameable : a.Nameable) (intact : next.cells.Intact)
    (back : next.undo.cells = sheet.cells)
    (formulas : next.cells.formula? = Function.update sheet.cells.formula? a new) :
    next.Stable :=
  ⟨stable.update nameable intact formulas, back ▸ stable⟩

theorem stable_of_unwritten {cells : Cells} (stable : cells.Stable) : (Sheet.mk cells ∅).Stable := by
  refine ⟨stable, ?_⟩
  rw [undo_of_unwritten]
  exact stable

theorem empty_stable : empty.Stable := stable_of_unwritten Cells.stable_empty

theorem Stable.perform (stable : sheet.Stable) (operation : Operation) :
    (sheet.perform operation).2.Stable := by
  cases operation with
  | edit cell text =>
    change (sheet.edit cell text).2.Stable
    rcases edit_cases stable.now.intact cell text with
      ⟨fault, _, result⟩ | ⟨a, formula, updates, next, edited, result⟩
    · rw [result]
      exact stable_of_unwritten stable.now
    · rw [result]
      exact stable_of_update stable.now (Address.nameable_of_ofName? edited.named) edited.intact
        edited.back edited.formulas
  | delete cell =>
    change (sheet.delete cell).2.Stable
    obtain ⟨updates, next, result, intact, back, formulas⟩ := delete_cases stable.now.intact cell
    rw [result]
    cases found : Address.ofName? cell with
    | none =>
      rw [found] at formulas
      refine ⟨⟨intact, fun a formula held => ?_⟩, back ▸ stable.now⟩
      rw [formulas] at held
      exact stable.now.nameable a formula held
    | some a =>
      rw [found] at formulas
      exact stable_of_update stable.now (Address.nameable_of_ofName? found) intact back formulas
  | copy dest source =>
    change (sheet.copy dest source).2.Stable
    rcases copy_cases stable.now.intact dest source with
      ⟨fault, result⟩ | ⟨a, new, updates, next, found, result, intact, back, formulas⟩
    · rw [result]
      exact stable_of_unwritten stable.now
    · rw [result]
      exact stable_of_update stable.now (Address.nameable_of_ofName? found) intact back formulas
  | clear => exact empty_stable
  | undo => exact stable_of_unwritten stable.before

theorem Stable.run (stable : sheet.Stable) (history : List Operation) :
    (sheet.run history).Stable := by
  unfold Sheet.run
  induction history generalizing sheet with
  | nil => exact stable
  | cons operation rest ih => exact ih (stable.perform operation)

theorem Stable.replayFrom (stable : sheet.Stable) (updates : Updates)
    (entries : List (String × String)) : (sheet.replayFrom updates entries).2.Stable := by
  induction entries generalizing sheet updates with
  | nil => exact stable
  | cons entry rest ih =>
    obtain ⟨cell, text⟩ := entry
    have next : (sheet.edit cell text).2.Stable := stable.perform (.edit cell text)
    unfold Sheet.replayFrom
    split
    next later edited result =>
      rw [result] at next
      exact ih next (updates.merge later)
    next fault edited result =>
      rw [result] at next
      exact next

theorem Stable.replay (stable : sheet.Stable) {entries : List (String × String)}
    {outcome : Except Fault Updates} {next : Sheet}
    (result : sheet.replay entries = (outcome, next)) : next.Stable := by
  have after := stable.replayFrom [] entries
  unfold Sheet.replay at result
  rw [result] at after
  exact after

theorem after_stable (history : List Operation) : (after history).Stable := empty_stable.run history

end Sheet

end Worksheet
