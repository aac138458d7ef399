import Worksheet.Proofs.Sheet.Rebuilding

/-! Independence of the past. A listing tells all of the cells, since it rebuilds them. Of two sheets
with the same cells only the journals can differ, and the first change that is not an undoing replaces
these; so nothing but the listing has a say in what a sheet answers from then on. -/

namespace Worksheet

inductive Request where
  | perform (operation : Operation)
  | query (cell : String)
  | list
  | size

inductive Reply where
  | outcome (outcome : Except Fault Updates)
  | entry (entry : Entry)
  | listing (entries : List (String × String))
  | size (count : Nat)

/-- The first operation among the requests, if there is one, is not an undoing. -/
def Request.StartsAfresh : List Request → Prop
  | [] => True
  | .perform .undo :: _ => False
  | .perform _ :: _ => True
  | _ :: rest => StartsAfresh rest

namespace Sheet

def respond (sheet : Sheet) : Request → Reply × Sheet
  | .perform operation =>
      (.outcome (sheet.perform operation).1, (sheet.perform operation).2)
  | .query cell => (.entry (sheet.query cell), sheet)
  | .list => (.listing sheet.listing, sheet)
  | .size => (.size sheet.size, sheet)

def replies (sheet : Sheet) : List Request → List Reply
  | [] => []
  | request :: rest => (sheet.respond request).1 :: (sheet.respond request).2.replies rest

section

variable {one other : Sheet} (same : one.cells = other.cells)

include same

theorem perform_congr {operation : Operation} (forward : operation ≠ .undo) :
    one.perform operation = other.perform operation := by
  have transacted : ∀ action, one.transact action = other.transact action := by
    intro action
    unfold transact
    rw [same]
  cases operation with
  | edit cell text => exact transacted (enter cell text)
  | delete cell => exact transacted (erase cell)
  | copy dest source => exact transacted (transfer dest source)
  | clear => rfl
  | undo => exact absurd rfl forward

theorem query_congr (cell : String) : one.query cell = other.query cell := by
  unfold query
  rw [same]

theorem listing_congr : one.listing = other.listing := by
  unfold listing
  rw [same]

theorem size_congr : one.size = other.size := by
  unfold size
  rw [same]

theorem replay_congr (entries : List (String × String)) :
    (one.replay entries).1 = (other.replay entries).1 ∧
      (one.replay entries).2.cells = (other.replay entries).2.cells := by
  cases entries with
  | nil => exact ⟨rfl, same⟩
  | cons entry rest =>
    obtain ⟨cell, text⟩ := entry
    have edited : one.perform (.edit cell text) = other.perform (.edit cell text) :=
      perform_congr same nofun
    change one.edit cell text = other.edit cell text at edited
    unfold replay replayFrom
    rw [edited]
    exact ⟨rfl, rfl⟩

theorem replies_congr {requests : List Request} (fresh : Request.StartsAfresh requests) :
    one.replies requests = other.replies requests := by
  induction requests with
  | nil => rfl
  | cons request rest ih =>
    unfold replies
    cases request with
    | query cell =>
      simp only [respond]
      rw [query_congr same, ih fresh]
    | list =>
      simp only [respond]
      rw [listing_congr same, ih fresh]
    | size =>
      simp only [respond]
      rw [size_congr same, ih fresh]
    | perform operation =>
      have performed : one.perform operation = other.perform operation :=
        -- Only an undoing looks at the journal, and the first operation is none.
        perform_congr same fun back => by
          subst back
          exact fresh
      simp only [respond]
      rw [performed]

end

theorem cells_eq_of_listing_eq {one other : Sheet} (first : one.cells.Stable)
    (second : other.cells.Stable) (same : one.listing = other.listing) : one.cells = other.cells := by
  obtain ⟨_, next, rebuilt, whole⟩ := replay_listing first
  obtain ⟨_, last, again, all⟩ := replay_listing second
  rw [same] at rebuilt
  cases rebuilt.symm.trans again
  exact whole.symm.trans all

/-- Histories that end with the same listing cannot be told apart by anything that is asked later. -/
theorem replies_eq_of_listing_eq {one other : List Operation}
    (same : (after one).listing = (after other).listing) {requests : List Request}
    (fresh : Request.StartsAfresh requests) :
    (after one).replies requests = (after other).replies requests :=
  replies_congr (cells_eq_of_listing_eq (after_stable one).now (after_stable other).now same) fresh

theorem replies_after_detours :
    ∃ (one other : List Operation) (requests : List Request),
      one = [.edit "a1" "2", .edit "b1" "a1+d9", .edit "c1" "b1*a1"] ∧
      other = [.edit "c1" "B1 * A1", .edit "d9" "4", .copy "b1" "c2", .edit "b1" "a1+d9",
        .edit "a1" "c1", .edit "a1" "2", .delete "d9", .edit "c1" "7", .undo] ∧
      requests = [.query "c1", .perform (.edit "A1" "5"), .perform .undo,
        .perform (.edit "d9" "c1"), .perform (.copy "d9" "a1"), .list, .size] ∧
      (after one).listing = (after other).listing ∧
      (after one).replies requests = (after other).replies requests := by
  refine ⟨_, _, _, rfl, rfl, rfl, ?same, replies_eq_of_listing_eq ?same trivial⟩
  decide +kernel

end Sheet

end Worksheet
