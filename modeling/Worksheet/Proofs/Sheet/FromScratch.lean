import Worksheet.Proofs.Sheet.History

/-! Values from scratch. In cells at rest every value is the one that the formulas alone determine,
however it came there: cells without a circle have values from the bottom up, and only these. -/

namespace Worksheet

open Relation Cells

/-- The values that formulas give to the cells, computed from scratch: zero where there is no formula,
and else the value of the formula when each cell that it reads has its own value from scratch. -/
inductive Computes (formulas : Address → Option Formula) : Address → Float → Prop
  | blank {a : Address} (empty : formulas a = none) : Computes formulas a 0
  | formula {a : Address} {formula : Formula} {env : Address → Float} {x : Float}
      (held : formulas a = some formula)
      (read : ∀ p ∈ formula.targets a, Computes formulas p (env p))
      (result : formula.valueIn a env = .ok x) : Computes formulas a x

instance : Finite Address := by
  refine Finite.of_injective (fun a : Address => (a.col, a.row)) ?_
  intro a b same
  cases a
  cases b
  cases same
  rfl

theorem wellFounded_reads {formulas : Address → Option Formula}
    (acyclic : ∀ a, ¬ TransGen (Reads formulas) a a) :
    WellFounded (fun p a => Reads formulas a p) := by
  have transitive : IsTrans Address (Function.swap (TransGen (Reads formulas))) :=
    ⟨fun _ _ _ first second => second.trans first⟩
  have irreflexive : Std.Irrefl (Function.swap (TransGen (Reads formulas))) := ⟨acyclic⟩
  have descent := Finite.wellFounded_of_trans_of_irrefl (Function.swap (TransGen (Reads formulas)))
  exact Subrelation.wf (fun step => TransGen.single step) descent

namespace Cells.Intact

variable {cells : Cells}

theorem valueAt_of_empty (intact : cells.Intact) {a : Address} (empty : cells.formula? a = none) :
    cells.valueAt a = 0 :=
  intact.proper.valueAt_of_empty (formula?_eq_none_iff.1 empty)

theorem computes (intact : cells.Intact) (a : Address) :
    Computes cells.formula? a (cells.valueAt a) := by
  induction a using (wellFounded_reads intact.acyclic).induction with
  | h a ih =>
    cases held : cells.formula? a with
    | none =>
      rw [intact.valueAt_of_empty held]
      exact .blank held
    | some formula =>
      refine .formula held (fun p read => ?_) (intact.settled a formula held).2
      exact ih p ⟨formula, held, read⟩

theorem valueAt_of_computes (intact : cells.Intact) {a : Address} {x : Float}
    (computes : Computes cells.formula? a x) : cells.valueAt a = x := by
  induction computes with
  | blank empty => exact intact.valueAt_of_empty empty
  | @formula a formula env x held read result ih =>
    have present := (intact.settled a formula held).2
    rw [(intact.proper.wellFormed held).valueIn_congr ih, result] at present
    exact (Except.ok.inj present).symm

theorem computes_iff (intact : cells.Intact) (a : Address) (x : Float) :
    Computes cells.formula? a x ↔ cells.valueAt a = x := by
  constructor
  · exact intact.valueAt_of_computes
  · intro same
    exact same ▸ intact.computes a

end Cells.Intact

namespace Sheet

theorem value_query {cell : String} {a : Address} (named : Address.ofName? cell = some a)
    (sheet : Sheet) : (sheet.query cell).value = sheet.cells.valueAt a := by
  unfold query
  rw [named]

theorem text_query {cell : String} {a : Address} (named : Address.ofName? cell = some a)
    (sheet : Sheet) : (sheet.query cell).text = sheet.cells.textOf a.name := by
  unfold query
  rw [named]

/-- In whatever a history has led to, a query under any name of a formula cell reports the value
computed from scratch, every formula cell has a name, and cells without a formula hold zero. -/
theorem query_from_scratch (history : List Operation) :
    (∀ a formula, (after history).cells.formula? a = some formula →
      Address.ofName? a.name = some a ∧
      ∀ cell, Address.ofName? cell = some a → ∀ x,
        Computes (after history).cells.formula? a x ↔ ((after history).query cell).value = x) ∧
    ∀ a, (after history).cells.formula? a = none →
      Computes (after history).cells.formula? a 0 ∧ (after history).cells.valueAt a = 0 := by
  have stable := (after_stable history).now
  constructor
  · intro a formula held
    refine ⟨Address.ofName?_name (stable.nameable a formula held), fun cell named x => ?_⟩
    rw [value_query named]
    exact stable.intact.computes_iff a x
  · intro a empty
    exact ⟨.blank empty, stable.intact.valueAt_of_empty empty⟩

example : ((after [.edit "c1" "a1+b1", .edit "b1" "a1*2", .edit "a1" "5"]).query "C1").value = 15 := by
  decide +kernel

end Sheet

end Worksheet
