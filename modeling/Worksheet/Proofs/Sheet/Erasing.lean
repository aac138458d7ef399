import Worksheet.Proofs.Sheet.Affected

/-! Erasing. A deletion never fails. It takes one formula out, and the cells that it leaves are those of
a sheet into which only the other formulas have been put: no record is left that they do not account
for, and none of theirs is missing. -/

namespace Worksheet

open Relation Cells

section

variable {before next : Cells} {a : Address}

theorem Cells.textOf_of_empty {cells : Cells} (empty : cells.content? a = none) :
    cells.textOf a.name = "" := by
  unfold content? at empty
  unfold textOf
  rw [empty]

theorem Cells.references_of_cleared (formulas : next.formula? = Function.update before.formula? a none)
    {c p : Address} : next.References c p ↔ c ≠ a ∧ before.References c p := by
  rw [references_iff, references_iff, formulas]
  by_cases same : c = a
  · subst same
    refine iff_of_false (fun reads => ?_) fun both => both.1 rfl
    obtain ⟨formula, held, _⟩ := reads
    rw [Function.update_self] at held
    cases held
  · rw [reads_update_of_ne same, and_iff_right same]

theorem Cells.lists_of_cleared (one : before.Proper) (two : next.Proper)
    (formulas : next.formula? = Function.update before.formula? a none) {entry : String × String} :
    next.Lists entry ↔ before.Lists entry ∧ entry.1 ≠ a.name := by
  have contents : ∀ p, p ≠ a → next.content? p = before.content? p := by
    intro p different
    refine two.content?_eq_of_formula? one ?_
    rw [formulas, Function.update_of_ne different]
  have empty : next.content? a = none := by
    rw [← formula?_eq_none_iff, formulas, Function.update_self]
  constructor
  · rintro ⟨p, content, held, rfl⟩
    have different : p ≠ a := by
      rintro rfl
      rw [empty] at held
      cases held
    rw [contents p different] at held
    exact ⟨⟨p, content, held, rfl⟩, fun names => different (Address.name_injective names)⟩
  · rintro ⟨⟨p, content, held, rfl⟩, different⟩
    refine ⟨p, content, ?_, rfl⟩
    rw [contents p fun same => different (congrArg Address.name same)]
    exact held

end

namespace Sheet

/-- What the deletion of the formula in `a` makes of a sheet. -/
structure Erased (before next : Sheet) (a : Address) (updates : Updates) : Prop where
  gone : next.cells.content? a = none
  entry : ∀ cell, Address.ofName? cell = some a → next.query cell = ⟨"", 0⟩
  others : ∀ p, p ≠ a → next.cells.content? p = before.cells.content? p
  /-- A cell without a formula, such as `a` itself, has a record when another formula than that of `a`
  references it, and the record tells whose formulas these are. -/
  records : ∀ p, next.cells.formula? p = none →
    (p.name ∈ next.cells ↔ ∃ c, c ≠ a ∧ before.cells.References c p)
  readers : ∀ p name, name ∈ next.cells.readers p ↔
    ∃ c, c.name = name ∧ c ≠ a ∧ before.cells.References c p
  computed : ReportsRemoved before next a updates
  scratch : ∀ p x, Computes next.cells.formula? p x ↔ next.cells.valueAt p = x
  rebuilt : empty.Accepts (before.listing.filter fun entry => entry.1 ≠ a.name) ∧
    (after (edits (before.listing.filter fun entry => entry.1 ≠ a.name))).cells = next.cells

variable {sheet next : Sheet} {cell : String} {a : Address}

theorem rebuilt_of_cleared (stable : sheet.cells.Stable) (complete : next.cells.Stable)
    (formulas : next.cells.formula? = Function.update sheet.cells.formula? a none) :
    empty.Accepts (sheet.listing.filter fun entry => entry.1 ≠ a.name) ∧
      (after (edits (sheet.listing.filter fun entry => entry.1 ≠ a.name))).cells = next.cells := by
  have listed : ∀ entry, entry ∈ sheet.listing.filter (fun entry => entry.1 ≠ a.name) ↔
      next.cells.Lists entry := by
    intro entry
    rw [lists_of_cleared stable.intact.proper complete.intact.proper formulas, List.mem_filter,
      decide_eq_true_iff]
    exact and_congr_left fun _ => stable.intact.proper.mem_listing
  obtain ⟨updates, last, replayed, same⟩ := replay_of_lists complete listed
  obtain ⟨accepted, made⟩ := replayFrom_eq_ok_iff.1 ⟨updates, replayed⟩
  exact ⟨accepted, (congrArg Sheet.cells made).trans same⟩

theorem erased_of_cleared {updates : Updates} (stable : sheet.cells.Stable)
    (complete : next.cells.Stable)
    (formulas : next.cells.formula? = Function.update sheet.cells.formula? a none)
    (reports : ReportsRemoved sheet next a updates) : sheet.Erased next a updates := by
  have consistent := complete.intact.consistent
  have unheld : next.cells.formula? a = none := by
    rw [formulas, Function.update_self]
  have gone := formula?_eq_none_iff.1 unheld
  refine ⟨gone, fun cell named => ?_, fun p different => ?_, fun p empty => ?_, fun p name => ?_, reports,
    complete.intact.computes_iff, rebuilt_of_cleared stable complete formulas⟩
  · unfold query
    rw [named]
    simp only
    rw [textOf_of_empty gone, complete.intact.valueAt_of_empty unheld]
  · refine complete.intact.proper.content?_eq_of_formula? stable.intact.proper ?_
    rw [formulas, Function.update_of_ne different]
  · rw [(consistent.placeholder p empty).1]
    exact exists_congr fun c => references_of_cleared formulas
  · rw [consistent.readers]
    exact exists_congr fun c => and_congr_right fun _ => references_of_cleared formulas

theorem delete_of_empty
    (empty : ∀ a, Address.ofName? cell = some a → sheet.cells.formula? a = none) :
    sheet.delete cell = (.ok [], ⟨sheet.cells, ∅⟩) := by
  have idle : erase cell (Draft.start sheet.cells) = .ok () (Draft.start sheet.cells) := by
    unfold erase
    cases named : Address.ofName? cell with
    | none => rfl
    | some a =>
      have unheld := formula?_eq_none_iff.1 (empty a named)
      simp only
      unfold remove
      rw [get_bind, show (Draft.start sheet.cells).cells.content? a = none from unheld]
      rfl
  unfold delete transact EStateM.run
  rw [idle]
  rfl

/-- In whatever a history has led to, a deletion succeeds under any string. When the string names a cell
with a formula, this formula has gone, and the cells are those that the other formulas make; otherwise
the cells are as they were and nothing is computed. -/
theorem delete_erases (history : List Operation) (cell : String) :
    (∃ updates, ((after history).delete cell).1 = .ok updates) ∧
    (∀ a formula, Address.ofName? cell = some a → (after history).cells.formula? a = some formula →
      ∃ updates, ((after history).delete cell).1 = .ok updates ∧
        (after history).Erased ((after history).delete cell).2 a updates) ∧
    ((∀ a, Address.ofName? cell = some a → (after history).cells.formula? a = none) →
      (after history).delete cell = (.ok [], ⟨(after history).cells, ∅⟩)) := by
  have stable := after_stable history
  obtain ⟨updates, next, result, intact, back, formulas⟩ := delete_cases stable.now.intact cell
  have done : ((after history).delete cell).1 = .ok updates := congrArg Prod.fst result
  refine ⟨⟨updates, done⟩, fun a formula named held => ⟨updates, done, ?_⟩, delete_of_empty⟩
  have reports := delete_reports stable named held done
  have complete : ((after history).delete cell).2.Stable := stable.perform (.delete cell)
  rw [result] at reports complete ⊢
  rw [named] at formulas
  exact erased_of_cleared stable.now complete.now formulas reports

theorem delete_erases_between_readers :
    ∃ history : List Operation,
      history = [.edit "c1" "a1+b1", .edit "b1" "a1*2", .edit "a1" "d1+d2", .edit "d2" "4"] ∧
      Address.ofName? "$A1" = some ⟨0, 0⟩ ∧
      (∃ formula, (after history).cells.formula? ⟨0, 0⟩ = some formula) ∧
      ((after history).delete "$A1").1 = .ok [(⟨1, 0⟩, 0), (⟨2, 0⟩, 0)] ∧
      (after history).Erased ((after history).delete "$A1").2 ⟨0, 0⟩ [(⟨1, 0⟩, 0), (⟨2, 0⟩, 0)] ∧
      "a1" ∈ ((after history).delete "$A1").2.cells ∧
      "d1" ∉ ((after history).delete "$A1").2.cells := by
  refine ⟨_, rfl, ?named, Option.isSome_iff_exists.1 ?held, ?done, ?erased, ?kept, ?gone⟩
  case erased =>
    obtain ⟨formula, held⟩ := Option.isSome_iff_exists.1 ?held
    obtain ⟨updates, done, erased⟩ := (delete_erases _ "$A1").2.1 ⟨0, 0⟩ formula ?named held
    cases done.symm.trans ?done
    exact erased
  all_goals decide +kernel

end Sheet

end Worksheet
