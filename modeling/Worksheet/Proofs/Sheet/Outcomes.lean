import Worksheet.Proofs.Faults
import Worksheet.Proofs.Sheet.History

/-! How operations fail. An edit is refused for its name, for its text, or for a circle through the
edited cell, and for nothing else; and whatever fails has changed nothing. -/

namespace Worksheet

section

variable {cells : Cells} {cell text : String}

theorem Cells.refuses_iff {fault : Fault} :
    cells.Refuses cell text fault ↔
      match Address.ofName? cell with
      | none => fault = .badName cell
      | some a =>
          match Formula.read a text with
          | .error cause => fault = .formula cause
          | .ok formula => fault = .circular a.name ∧ cells.ClosesCircle a formula := by
  constructor
  · intro refuses
    cases refuses with
    | name unread => rw [unread]
    | formula named unread => simp only [named, unread]
    | circular named read circle =>
      simp only [named, read, true_and]
      exact circle
  · intro reason
    cases named : Address.ofName? cell with
    | none =>
      rw [named] at reason
      exact reason ▸ .name named
    | some a =>
      cases read : Formula.read a text with
      | error cause =>
        simp only [named, read] at reason
        exact reason ▸ .formula named read
      | ok formula =>
        simp only [named, read] at reason
        exact reason.1 ▸ .circular named read reason.2

namespace Cells.Refuses

theorem ofText {cause : FormulaFault} (refuses : cells.Refuses cell text (.formula cause)) :
    cause.OfText := by
  cases refuses with
  | formula named unread => exact Formula.ofText_of_read unread

theorem not_accepted {fault : Fault} (refuses : cells.Refuses cell text fault) {a : Address}
    {formula : Formula} (named : Address.ofName? cell = some a)
    (read : Formula.read a text = .ok formula) : cells.ClosesCircle a formula := by
  rw [refuses_iff, named] at refuses
  simp only [read] at refuses
  exact refuses.2

theorem unique {fault other : Fault} (one : cells.Refuses cell text fault)
    (two : cells.Refuses cell text other) : fault = other := by
  rw [refuses_iff] at one two
  cases named : Address.ofName? cell with
  | none =>
    rw [named] at one two
    exact one.trans two.symm
  | some a =>
    cases read : Formula.read a text with
    | error cause =>
      simp only [named, read] at one two
      exact one.trans two.symm
    | ok formula =>
      simp only [named, read] at one two
      exact one.1.trans two.1.symm

end Cells.Refuses

end

namespace Sheet

variable {sheet : Sheet}

/-- An edit fails with a fault if and only if that is why it is refused, and else it succeeds. It is
never refused for a reference that leads off the sheet. -/
theorem edit_error_iff (history : List Operation) (cell text : String) :
    (∀ fault, ((after history).edit cell text).1 = .error fault ↔
      (after history).cells.Refuses cell text fault) ∧
    ((∃ updates, ((after history).edit cell text).1 = .ok updates) ↔
      ∃ a formula, Address.ofName? cell = some a ∧ Formula.read a text = .ok formula ∧
        ¬ (after history).cells.ClosesCircle a formula) ∧
    ∀ base, ((after history).edit cell text).1 ≠ .error (.formula (.placedOutside base)) ∧
      ((after history).edit cell text).1 ≠ .error (.formula (.readOutside base)) := by
  rcases edit_cases (after_stable history).now.intact cell text with
    ⟨fault, refuses, result⟩ | ⟨a, formula, updates, next, edited, result⟩
  · rw [result]
    refine ⟨fun other => ⟨fun same => ?_, fun reason => ?_⟩, ⟨fun done => ?_, fun accepted => ?_⟩,
      fun base => ⟨fun same => ?_, fun same => ?_⟩⟩
    · cases same
      exact refuses
    · rw [refuses.unique reason]
    · obtain ⟨updates, never⟩ := done
      cases never
    · obtain ⟨a, formula, named, read, free⟩ := accepted
      exact absurd (refuses.not_accepted named read) free
    · cases same
      exact refuses.ofText
    · cases same
      exact refuses.ofText
  · rw [result]
    refine ⟨fun other => ⟨fun never => ?_, fun reason => ?_⟩, ⟨fun _ => ?_, fun _ => ⟨updates, rfl⟩⟩,
      fun base => ⟨fun never => ?_, fun never => ?_⟩⟩
    · cases never
    · exact absurd (reason.not_accepted edited.named edited.read) edited.free
    · exact ⟨a, formula, edited.named, edited.read, edited.free⟩
    · cases never
    · cases never

theorem transact_back {action : Action Unit} (keeps : Keeps (Draft.Restores sheet.cells) action) :
    (∃ fault, sheet.transact action = (.error fault, ⟨sheet.cells, ∅⟩)) ∨
    ∃ updates next, sheet.transact action = (.ok updates, next) ∧ next.undo.cells = sheet.cells := by
  rcases transact_cases keeps (ends_of_fact trivial) with ⟨fault, _, result⟩ | ⟨draft, _, back, result⟩
  · exact .inl ⟨fault, result⟩
  · exact .inr ⟨draft.updates, _, result, back⟩

theorem transact_error {action : Action Unit} {fault : Fault}
    (keeps : Keeps (Draft.Restores sheet.cells) action)
    (failed : (sheet.transact action).1 = .error fault) :
    (sheet.transact action).2 = ⟨sheet.cells, ∅⟩ := by
  rcases transact_back keeps with ⟨other, result⟩ | ⟨updates, next, result, _⟩
  · rw [result]
  · rw [result] at failed
    cases failed

theorem sheet_of_error {operation : Operation} {fault : Fault}
    (failed : (sheet.perform operation).1 = .error fault) :
    (sheet.perform operation).2 = ⟨sheet.cells, ∅⟩ := by
  cases operation with
  | edit cell text => exact transact_error (enter_restores sheet.cells cell text) failed
  | delete cell => exact transact_error (erase_restores sheet.cells cell) failed
  | copy dest source => exact transact_error (transfer_restores sheet.cells dest source) failed
  | clear => cases failed
  | undo => cases failed

/-- An operation that fails changes nothing, and nothing is taken back after it. -/
theorem perform_error {operation : Operation} {fault : Fault}
    (failed : (sheet.perform operation).1 = .error fault) :
    (sheet.perform operation).2 = ⟨sheet.cells, ∅⟩ ∧
      (sheet.perform operation).2.undo = (sheet.perform operation).2 := by
  have same := sheet_of_error failed
  rw [same]
  exact ⟨rfl, undo_of_unwritten sheet.cells⟩

theorem perform_error_of_circle :
    ((after [.edit "b1" "a1+1"]).perform (.edit "a1" "b1")).1 = .error (.circular "a1") ∧
      ((after [.edit "b1" "a1+1"]).perform (.edit "a1" "b1")).2 =
        ⟨(after [.edit "b1" "a1+1"]).cells, ∅⟩ := by
  have failed : ((after [.edit "b1" "a1+1"]).perform (.edit "a1" "b1")).1 =
      .error (.circular "a1") := by
    decide +kernel
  exact ⟨failed, (perform_error failed).1⟩

end Sheet

end Worksheet
