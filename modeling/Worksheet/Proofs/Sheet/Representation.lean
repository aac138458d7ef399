import Worksheet.Proofs.RoundTrip
import Worksheet.Proofs.Sheet.History

/-! The representation of a sheet. Records stand under the names of their cells, tell exactly the readers
that the formulas make, exist only for formulas and for what they read, and hold texts that are read
back as their formulas. -/

namespace Worksheet

open Relation

theorem Content.Written.read {content : Content} {a : Address} (written : content.Written a) :
    Formula.read a content.text = .ok content.formula := by
  obtain ⟨text, rendered, read⟩ := written.wellFormed.read_render
  have same : content.text = text := Except.ok.inj (written.rendered.symm.trans rendered)
  exact same.symm ▸ read

namespace Cells

def References (cells : Cells) (c p : Address) : Prop :=
  ∃ formula, cells.formula? c = some formula ∧ ∃ r ∈ formula.references, r.resolve? c = some p

/-- What the records of a sheet have to do with its formulas. -/
structure Consistent (cells : Cells) : Prop where
  named : ∀ (name : String) (cell : Cell), cells[name]? = some cell → cell.address.name = name
  readers : ∀ p name, name ∈ cells.readers p ↔ ∃ c, c.name = name ∧ cells.References c p
  placeholder : ∀ p, cells.formula? p = none →
    (p.name ∈ cells ↔ ∃ c, cells.References c p) ∧ (p.name ∈ cells → cells.readers p ≠ ∅)
  acyclic : ∀ c, ¬ TransGen cells.References c c
  written : ∀ c content, cells.content? c = some content →
    content.formula.render c = .ok content.text ∧
    Formula.read c content.text = .ok content.formula ∧
    ∀ r ∈ content.formula.references, ∃ target, r.resolve? c = some target ∧
      target.col.val ≤ 4294967294 ∧ target.row.val ≤ 4294967294

variable {cells : Cells}

theorem references_iff {c p : Address} : cells.References c p ↔ Reads cells.formula? c p := by
  unfold References Reads Formula.targets
  simp only [List.mem_filterMap]

theorem references_eq : cells.References = Reads cells.formula? := by
  funext c p
  exact propext references_iff

theorem mem_of_mem_readers {p : Address} {name : String} (told : name ∈ cells.readers p) :
    p.name ∈ cells := by
  unfold readers at told
  cases held : cells[p.name]? with
  | none =>
    rw [held] at told
    exact absurd told Std.ExtTreeSet.not_mem_empty
  | some cell =>
    rw [Std.ExtTreeMap.mem_iff_isSome_getElem?, held]
    rfl

theorem Proper.exists_reader (proper : cells.Proper) {p : Address} (empty : cells.formula? p = none)
    (held : p.name ∈ cells) : ∃ name, name ∈ cells.readers p := by
  rw [Std.ExtTreeMap.mem_iff_isSome_getElem?, Option.isSome_iff_exists] at held
  obtain ⟨cell, held⟩ := held
  rcases (Cell.isIdle_eq_false_iff cell).1 (proper p.name cell held).busy with
    ⟨content, inner⟩ | ⟨name, told⟩
  · have found : cells.content? p = some content := by
      unfold content?
      rw [held]
      exact inner
    rw [formula?_eq_none_iff.1 empty] at found
    cases found
  · refine ⟨name, ?_⟩
    unfold readers
    rw [held]
    exact told

theorem Intact.consistent (intact : cells.Intact) : cells.Consistent := by
  refine ⟨fun name cell held => (intact.proper name cell held).named.symm, fun p name => ?_,
    fun p empty => ⟨⟨fun held => ?_, fun reader => ?_⟩, fun held none => ?_⟩, ?_, fun c content held => ?_⟩
  · rw [intact.told, references_eq]
  · obtain ⟨name, told⟩ := intact.proper.exists_reader empty held
    obtain ⟨c, _, reads⟩ := (intact.told p name).1 told
    exact ⟨c, references_iff.2 reads⟩
  · obtain ⟨c, reads⟩ := reader
    exact mem_of_mem_readers ((intact.told p c.name).2 ⟨c, rfl, references_iff.1 reads⟩)
  · obtain ⟨name, told⟩ := intact.proper.exists_reader empty held
    rw [none] at told
    exact Std.ExtTreeSet.not_mem_empty told
  · rw [references_eq]
    exact intact.acyclic
  · have written := intact.proper.written_record held
    refine ⟨written.rendered, written.read, fun r member => ?_⟩
    obtain ⟨target, denotes, nameable⟩ := written.wellFormed.resolves r member
    exact ⟨target, denotes, Nat.le_of_lt_succ nameable.1, Nat.le_of_lt_succ nameable.2⟩

theorem Intact.eq_empty (intact : cells.Intact) (empty : ∀ a, cells.formula? a = none) :
    cells = ∅ := by
  apply Std.ExtTreeMap.ext_getElem?
  intro name
  rw [Std.ExtTreeMap.getElem?_empty]
  cases held : cells[name]? with
  | none => rfl
  | some cell =>
    have named := (intact.proper name cell held).named
    have member : cell.address.name ∈ cells := by
      rw [Std.ExtTreeMap.mem_iff_isSome_getElem?, ← named, held]
      rfl
    obtain ⟨reader, told⟩ := intact.proper.exists_reader (empty cell.address) member
    obtain ⟨c, _, formula, found, _⟩ := (intact.told _ reader).1 told
    rw [empty c] at found
    cases found

end Cells

namespace Sheet

theorem formula?_perform_delete {sheet : Sheet} (stable : sheet.Stable) {cell : String} {a : Address}
    (gone : sheet.cells.formula? a = none ∨ Address.ofName? cell = some a) :
    (sheet.perform (.delete cell)).2.cells.formula? a = none := by
  obtain ⟨updates, next, result, _, _, formulas⟩ := delete_cases stable.now.intact cell
  have moved : (sheet.perform (.delete cell)).2 = next := congrArg Prod.snd result
  rw [moved, formulas]
  cases named : Address.ofName? cell with
  | none =>
    rw [named] at gone
    exact gone.resolve_right nofun
  | some c =>
    rw [named] at gone
    by_cases same : a = c
    · rw [same]
      exact Function.update_self c none sheet.cells.formula?
    · simp only
      rw [Function.update_of_ne same]
      exact gone.resolve_right fun back => same (Option.some.inj back).symm

theorem formula?_run_delete {sheet : Sheet} (stable : sheet.Stable) (names : List String)
    {a : Address}
    (gone : sheet.cells.formula? a = none ∨ ∃ cell ∈ names, Address.ofName? cell = some a) :
    (sheet.run (names.map .delete)).cells.formula? a = none := by
  induction names generalizing sheet with
  | nil =>
    rcases gone with empty | ⟨cell, member, _⟩
    · exact empty
    · exact absurd member List.not_mem_nil
  | cons cell rest ih =>
    refine ih (stable.perform (.delete cell)) ?_
    rcases gone with empty | ⟨name, member, found⟩
    · exact .inl (formula?_perform_delete stable (.inl empty))
    · rcases List.mem_cons.1 member with same | later
      · exact .inl (formula?_perform_delete stable (.inr (same ▸ found)))
      · exact .inr ⟨name, later, found⟩

/-- Whatever a history has led to is consistent, and when all its formulas are deleted nothing is left. -/
theorem after_consistent (history : List Operation) :
    (after history).cells.Consistent ∧
    ((∀ a, (after history).cells.formula? a = none) → (after history).cells = ∅) ∧
    ∀ names : List String,
      (∀ a formula, (after history).cells.formula? a = some formula →
        ∃ cell ∈ names, Address.ofName? cell = some a) →
      ((after history).run (names.map .delete)).cells = ∅ := by
  have stable := after_stable history
  refine ⟨stable.now.intact.consistent, stable.now.intact.eq_empty, fun names covers => ?_⟩
  refine (stable.run _).now.intact.eq_empty fun a => formula?_run_delete stable names ?_
  cases held : (after history).cells.formula? a with
  | none => exact .inl rfl
  | some formula => exact .inr (covers a formula held)

end Sheet

end Worksheet
