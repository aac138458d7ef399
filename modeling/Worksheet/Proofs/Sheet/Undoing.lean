import Worksheet.Proofs.Sheet.Outcomes

/-! Taking back. The journal of an operation holds the first version of every record that it touched,
so undoing it brings back every record, in every field, and no others; and where the journal is
empty there is nothing to undo. -/

namespace Worksheet

def Operation.IsChange : Operation → Prop
  | .edit _ _ => True
  | .delete _ => True
  | .copy _ _ => True
  | .clear => False
  | .undo => False

namespace Sheet

variable {sheet : Sheet} {operation : Operation}

theorem undo_perform_of_ok {updates : Updates} (change : operation.IsChange)
    (done : (sheet.perform operation).1 = .ok updates) :
    (sheet.perform operation).2.undo.cells = sheet.cells := by
  have transacted : ∀ action : Action Unit, Keeps (Draft.Restores sheet.cells) action →
      (sheet.transact action).1 = .ok updates →
        (sheet.transact action).2.undo.cells = sheet.cells := by
    intro action keeps succeeded
    rcases transact_back keeps with ⟨fault, result⟩ | ⟨other, next, result, back⟩
    · rw [result] at succeeded
      cases succeeded
    · rw [result]
      exact back
  cases operation with
  | edit cell text => exact transacted _ (enter_restores sheet.cells cell text) done
  | delete cell => exact transacted _ (erase_restores sheet.cells cell) done
  | copy dest source => exact transacted _ (transfer_restores sheet.cells dest source) done
  | clear => exact change.elim
  | undo => exact change.elim

/-- In whatever a history has led to, undoing a change that succeeded brings back every record, and to
undo twice in a row, on a new sheet, after a clearing or after a failure does nothing more. -/
theorem undo_takes_back (history : List Operation) :
    (∀ operation updates, operation.IsChange →
      ((after history).perform operation).1 = .ok updates →
        ((after history).perform operation).2.undo.cells = (after history).cells) ∧
    (after history).undo.undo = (after history).undo ∧
    empty.undo = empty ∧
    (after history).clear.undo = (after history).clear ∧
    ∀ operation fault, ((after history).perform operation).1 = .error fault →
      ((after history).perform operation).2.undo = ((after history).perform operation).2 ∧
        ((after history).perform operation).2.cells = (after history).cells := by
  refine ⟨fun operation updates change done => undo_perform_of_ok change done,
    undo_of_unwritten _, undo_of_unwritten ∅, undo_of_unwritten ∅, ?_⟩
  intro operation fault failed
  rw [sheet_of_error failed]
  exact ⟨undo_of_unwritten _, rfl⟩

theorem undo_of_delete :
    ((after [.edit "a1" "b1+1", .edit "c1" "a1*b1", .edit "b1" "2"]).perform
        (.delete "B$1")).1 = .ok [(⟨0, 0⟩, 1), (⟨2, 0⟩, 0)] ∧
      ((after [.edit "a1" "b1+1", .edit "c1" "a1*b1", .edit "b1" "2"]).perform
        (.delete "B$1")).2.undo.cells =
          (after [.edit "a1" "b1+1", .edit "c1" "a1*b1", .edit "b1" "2"]).cells := by
  have done : ((after [.edit "a1" "b1+1", .edit "c1" "a1*b1", .edit "b1" "2"]).perform
      (.delete "B$1")).1 = .ok [(⟨0, 0⟩, 1), (⟨2, 0⟩, 0)] := by
    decide +kernel
  exact ⟨done, (undo_takes_back _).1 _ _ trivial done⟩

end Sheet

end Worksheet
