import Worksheet.Proofs.Sheet.Reports

/-! Affected cells. The updates of an operation that puts a formula into a cell name this cell and the
cells that read on from it, and those of an operation that takes a formula out name the cells that read
on from its cell. They stand in the order of a walk along readers, with the values of the sheet
afterwards, and all other cells are as they were. -/

namespace Worksheet

open Relation Cells

/-- Without a circle through `a`, the same cells read on to `a` whether it holds its formula or not. -/
theorem transGen_update_none_iff {formulas : Address → Option Formula} {a p : Address}
    (acyclic : ¬ TransGen (Reads formulas) a a) :
    TransGen (Reads (Function.update formulas a none)) p a ↔ TransGen (Reads formulas) p a := by
  refine ⟨fun path => path.lift id fun _ _ step => reads_of_reads_cleared step, fun path => ?_⟩
  induction path using TransGen.head_induction_on with
  | single reads =>
    refine .single ((reads_update_of_ne fun same => acyclic ?_).2 reads)
    exact .single (same ▸ reads)
  | head reads path ih =>
    refine .head ((reads_update_of_ne fun same => acyclic ?_).2 reads) ih
    exact .head (same ▸ reads) path

namespace Sheet

/-- What the updates of a change in `a` tell about the sheet after it, when the cells of `starts` are
recomputed: in which order cells are met, which values they have, and that the others are as before. -/
structure Reports (before after : Sheet) (a : Address) (starts : List Address) (updates : Updates) :
    Prop where
  distinct : updates.keys.Nodup
  order : ∀ keys, Walks after.cells.formula? [] starts keys ↔ keys = updates.keys
  value : ∀ entry ∈ updates, (after.query entry.1.name).value = entry.2
  others : ∀ p, p ∉ updates.keys → p ≠ a →
    after.cells.content? p = before.cells.content? p ∧ after.cells.valueAt p = before.cells.valueAt p

structure ReportsInstalled (before after : Sheet) (a : Address) (updates : Updates) : Prop where
  keys : ∀ p, p ∈ updates.keys ↔ ReflTransGen (Reads after.cells.formula?) p a
  reports : Reports before after a [a] updates

structure ReportsRemoved (before after : Sheet) (a : Address) (updates : Updates) : Prop where
  keysBefore : ∀ p, p ∈ updates.keys ↔ TransGen (Reads before.cells.formula?) p a
  keysAfter : ∀ p, p ∈ updates.keys ↔ TransGen (Reads after.cells.formula?) p a
  reports : ∃ readers, ReadersInOrder after.cells.formula? a readers ∧
    Reports before after a readers updates

section

variable {sheet : Sheet} {cell text dest source : String} {a : Address} {updates : Updates}

theorem reports_of_reported {draft : Draft} {a : Address} {new : Option Formula}
    {starts : List Address} (stable : sheet.cells.Stable) (nameable : a.Nameable)
    (reported : draft.Reported a new starts sheet.cells)
    (held : ∀ s ∈ starts, ∃ formula, draft.cells.formula? s = some formula) :
    Reports sheet ⟨draft.cells, draft.journal⟩ a starts draft.updates := by
  have fine := stable.update nameable reported.intact reported.formulas
  refine ⟨reported.order.nodup List.nodup_nil, fun keys => ?_, fun entry member => ?_,
    fun p absent different => ⟨?_, reported.others p absent different⟩⟩
  · exact ⟨fun walks => walks.unique reported.order, fun same => same ▸ reported.order⟩
  · -- whatever is computed holds a formula, so its name leads back to it
    have met : entry.1 ∈ draft.updates.keys := List.mem_map_of_mem member
    obtain ⟨formula, inside⟩ : ∃ formula, draft.cells.formula? entry.1 = some formula := by
      obtain ⟨s, start, path⟩ := reported.order.mem_iff.1 met
      rcases ReflTransGen.cases_head path with same | ⟨_, reads, _⟩
      · exact same ▸ held s start
      · exact reads.imp fun _ both => both.1
    unfold query
    rw [Address.ofName?_name (fine.nameable entry.1 formula inside)]
    exact reported.value entry member
  · refine reported.intact.proper.content?_eq_of_formula? stable.intact.proper ?_
    rw [reported.formulas, Function.update_of_ne different]

theorem installed_of_reported {draft : Draft} {formula : Formula} (stable : sheet.cells.Stable)
    (nameable : a.Nameable) (reported : draft.Reported a (some formula) [a] sheet.cells) :
    ReportsInstalled sheet ⟨draft.cells, draft.journal⟩ a draft.updates := by
  refine ⟨fun p => reported.order.mem_iff.trans ?_,
    reports_of_reported stable nameable reported fun s member => ⟨formula, ?_⟩⟩
  · simp only [List.mem_singleton, exists_eq_left]
  · rw [List.mem_singleton.1 member, reported.formulas, Function.update_self]

theorem removed_of_reported {draft : Draft} {readers : List Address} (stable : sheet.cells.Stable)
    (nameable : a.Nameable) (order : ReadersInOrder draft.cells.formula? a readers)
    (reported : draft.Reported a none readers sheet.cells) :
    ReportsRemoved sheet ⟨draft.cells, draft.journal⟩ a draft.updates := by
  have keys : ∀ p, p ∈ draft.updates.keys ↔ TransGen (Reads draft.cells.formula?) p a := by
    intro p
    rw [reported.order.mem_iff, TransGen.tail'_iff]
    refine exists_congr fun reader => ?_
    rw [order.2, and_comm]
  refine ⟨fun p => (keys p).trans ?_, keys, readers, order,
    reports_of_reported stable nameable reported fun s member => ?_⟩
  · rw [reported.formulas]
    exact transGen_update_none_iff (stable.intact.acyclic a)
  · exact ((order.2 s).1 member).imp fun _ both => both.1

theorem edit_reports (stable : sheet.Stable) (done : (sheet.edit cell text).1 = .ok updates) :
    ∃ a, Address.ofName? cell = some a ∧
      ReportsInstalled sheet (sheet.edit cell text).2 a updates := by
  have ends : Ends (enter cell text) (Draft.start sheet.cells)
      (fun _ next => ∃ a formula, Address.ofName? cell = some a ∧
        next.Reported a (some formula) [a] sheet.cells) (fun _ _ => True) := by
    unfold enter
    rw [ends_bind]
    refine ends_named (fun a found => ?_) (fun _ => trivial)
    rw [ends_bind]
    refine ends_parsed (fun formula read => ?_) (fun _ _ => trivial)
    exact (install_reported stable.now.intact (Formula.wellFormed_of_read read) rfl).mono
      (fun _ next reported => ⟨a, formula, found, reported⟩) (fun _ _ _ => trivial)
  obtain ⟨draft, ⟨a, formula, found, reported⟩, same, left⟩ := transact_ok ends done
  refine ⟨a, found, ?_⟩
  unfold edit
  rw [left, ← same]
  exact installed_of_reported stable.now (Address.nameable_of_ofName? found) reported

theorem copy_reports (stable : sheet.Stable) {b : Address} (toDest : Address.ofName? dest = some a)
    (fromSource : Address.ofName? source = some b) {formula : Formula}
    (held : sheet.cells.formula? b = some formula) (done : (sheet.copy dest source).1 = .ok updates) :
    ReportsInstalled sheet (sheet.copy dest source).2 a updates := by
  have ends : Ends (transfer dest source) (Draft.start sheet.cells)
      (fun _ next => ∃ formula, next.Reported a (some formula) [a] sheet.cells)
      (fun _ _ => True) := by
    obtain ⟨content, inner, _⟩ := formula?_eq_some_iff.1 held
    unfold transfer named
    rw [toDest, fromSource, ends_bind, ends_pure, ends_bind, ends_pure, ends_bind, ends_get]
    rw [show (Draft.start sheet.cells).cells.content? b = some content from inner]
    simp only
    split
    · exact trivial
    · rw [ends_bind]
      refine ends_parsed (fun formula read => ?_) (fun _ _ => trivial)
      exact (install_reported stable.now.intact (Formula.wellFormed_of_read read) rfl).mono
        (fun _ next reported => ⟨formula, reported⟩) (fun _ _ _ => trivial)
  obtain ⟨draft, ⟨formula, reported⟩, same, left⟩ := transact_ok ends done
  unfold copy
  rw [left, ← same]
  exact installed_of_reported stable.now (Address.nameable_of_ofName? toDest) reported

theorem delete_reports (stable : sheet.Stable) (found : Address.ofName? cell = some a)
    {old : Formula} (held : sheet.cells.formula? a = some old)
    (done : (sheet.delete cell).1 = .ok updates) :
    ReportsRemoved sheet (sheet.delete cell).2 a updates := by
  have ends : Ends (erase cell) (Draft.start sheet.cells)
      (fun _ next => ∃ readers, ReadersInOrder next.cells.formula? a readers ∧
        next.Reported a none readers sheet.cells) (fun _ _ => True) := by
    unfold erase
    rw [found]
    exact remove_reported stable.now.intact held rfl
  obtain ⟨draft, ⟨readers, order, reported⟩, same, left⟩ := transact_ok ends done
  unfold delete
  rw [left, ← same]
  exact removed_of_reported stable.now (Address.nameable_of_ofName? found) order reported

end

/-- In whatever a history has led to, an edit that succeeds, or a copy of a formula that does, reports
the changed cell and all cells that read on from it; a deletion of a formula, or a copy of an empty cell
in its place, reports the cells that read on from it. -/
theorem updates_affected (history : List Operation) :
    (∀ cell text updates, ((after history).edit cell text).1 = .ok updates →
      ∃ a, Address.ofName? cell = some a ∧
        ReportsInstalled (after history) ((after history).edit cell text).2 a updates) ∧
    (∀ dest source updates, ((after history).copy dest source).1 = .ok updates →
      ∃ a b, Address.ofName? dest = some a ∧ Address.ofName? source = some b ∧
        (∀ formula, (after history).cells.formula? b = some formula →
          ReportsInstalled (after history) ((after history).copy dest source).2 a updates) ∧
        ((after history).cells.formula? b = none →
          ∀ old, (after history).cells.formula? a = some old →
            ReportsRemoved (after history) ((after history).copy dest source).2 a updates)) ∧
    ∀ cell a old, Address.ofName? cell = some a → (after history).cells.formula? a = some old →
      ∃ updates, ((after history).delete cell).1 = .ok updates ∧
        ReportsRemoved (after history) ((after history).delete cell).2 a updates := by
  have stable := after_stable history
  refine ⟨fun cell text updates done => edit_reports stable done, fun dest source updates done => ?_,
    fun cell a old found held => ?_⟩
  · obtain ⟨a, b, toDest, fromSource⟩ := names_of_copy done
    refine ⟨a, b, toDest, fromSource, fun formula held => copy_reports stable toDest fromSource held done,
      fun empty old held => ?_⟩
    rw [copy_of_empty toDest fromSource empty] at done ⊢
    exact delete_reports stable toDest held done
  · obtain ⟨updates, next, result, _⟩ := delete_cases stable.now.intact cell
    have done : ((after history).delete cell).1 = .ok updates := congrArg Prod.fst result
    exact ⟨updates, done, delete_reports stable found held done⟩

theorem updates_affected_again :
    ∃ history : List Operation,
      history = [.edit "a1" "1", .edit "b1" "a1+c1", .edit "c1" "a1", .edit "d1" "b1*c1"] ∧
      ((after history).edit "a1" "5").1 =
        .ok [(⟨0, 0⟩, 5), (⟨1, 0⟩, 10), (⟨3, 0⟩, 50), (⟨2, 0⟩, 5)] ∧
      ∀ p, p ∈ [(⟨0, 0⟩ : Address), ⟨1, 0⟩, ⟨3, 0⟩, ⟨2, 0⟩] ↔
        ReflTransGen (Reads ((after history).edit "a1" "5").2.cells.formula?) p ⟨0, 0⟩ := by
  refine ⟨_, rfl, ?edited, ?_⟩
  · decide +kernel
  · obtain ⟨a, found, reported⟩ := (updates_affected _).1 "a1" "5" _ ?edited
    cases found.symm.trans (by decide +kernel : Address.ofName? "a1" = some ⟨0, 0⟩)
    exact reported.keys

end Sheet

end Worksheet
