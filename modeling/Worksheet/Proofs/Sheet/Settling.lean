import Worksheet.Proofs.Sheet.Actions
import Worksheet.Proofs.Sheet.Records

/-! Settling. To settle a cell links it to all that its formula reads and gives it the value of the
formula under the present values; it disturbs only cells that read it. A cascade that ends without a
circle leaves no cell of its list unsettled, whatever the order of its steps: each cell that a step
disturbs is visited before that step is done. -/

namespace Worksheet

def Reads (formulas : Address → Option Formula) (a p : Address) : Prop :=
  ∃ formula, formulas a = some formula ∧ p ∈ formula.targets a

namespace Cells

def formula? (cells : Cells) (a : Address) : Option Formula :=
  (cells.content? a).map Content.formula

variable {cells : Cells}

theorem formula?_eq_some_iff {a : Address} {formula : Formula} :
    cells.formula? a = some formula ↔
      ∃ content, cells.content? a = some content ∧ content.formula = formula := by
  unfold formula?
  exact Option.map_eq_some_iff

theorem formula?_eq_none_iff {a : Address} : cells.formula? a = none ↔ cells.content? a = none := by
  unfold formula?
  exact Option.map_eq_none_iff

theorem Proper.wellFormed (proper : cells.Proper) {a : Address} {formula : Formula}
    (held : cells.formula? a = some formula) : formula.WellFormed a := by
  obtain ⟨content, inner, same⟩ := formula?_eq_some_iff.1 held
  exact same ▸ (proper.written_record inner).wellFormed

theorem Keyed.applied (keyed : cells.Keyed) {a : Address} {formula : Formula}
    (held : cells.formula? a = some formula) : formula.Applied := by
  obtain ⟨content, inner, same⟩ := formula?_eq_some_iff.1 held
  exact same ▸ keyed.applied_of_content? inner

theorem Keyed.formulaAt?_eq_some (keyed : cells.Keyed) {name : String} {a : Address} :
    cells.formulaAt? name = some a ↔ a.name = name ∧ ∃ formula, cells.formula? a = some formula := by
  rw [keyed.formulaAt?_eq_some_iff]
  refine and_congr_right fun _ => ?_
  constructor
  · intro held
    obtain ⟨content, held⟩ := held
    exact ⟨content.formula, formula?_eq_some_iff.2 ⟨content, held, rfl⟩⟩
  · intro held
    obtain ⟨formula, held⟩ := held
    obtain ⟨content, held, _⟩ := formula?_eq_some_iff.1 held
    exact ⟨content, held⟩

theorem Proper.formulaAt?_eq_some (proper : cells.Proper) {name : String} {a : Address} :
    cells.formulaAt? name = some a ↔ a.name = name ∧ ∃ formula, cells.formula? a = some formula :=
  proper.keyed.formulaAt?_eq_some

def Settled (cells : Cells) (a : Address) : Prop :=
  ∀ formula, cells.formula? a = some formula →
    (∀ p ∈ formula.targets a, a.name ∈ cells.readers p) ∧
      formula.valueIn a cells.valueAt = .ok (cells.valueAt a)

/-- Cells in the course of an operation: the formulas are settled on, and whoever is told as a reader
is one. -/
structure Working (formulas : Address → Option Formula) (cells : Cells) : Prop where
  proper : cells.Proper
  formula : ∀ a, cells.formula? a = formulas a
  sound : ∀ p name, name ∈ cells.readers p → ∃ a, a.name = name ∧ Reads formulas a p

structure LinkedTo (base : Address) (targets : List Address) (before after : Cells) : Prop where
  proper : before.Proper → after.Proper
  content : ∀ p, after.content? p = before.content? p
  value : ∀ p, after.valueAt p = before.valueAt p
  readers : ∀ p name, name ∈ after.readers p ↔
    (p ∈ targets ∧ base.name = name) ∨ name ∈ before.readers p

theorem LinkedTo.refl (base : Address) (cells : Cells) : LinkedTo base [] cells cells := by
  refine ⟨id, fun _ => rfl, fun _ => rfl, fun p name => ?_⟩
  simp only [List.not_mem_nil, false_and, false_or]

theorem LinkedTo.trans {base : Address} {first second : List Address} {before mid after : Cells}
    (one : LinkedTo base first before mid) (two : LinkedTo base second mid after) :
    LinkedTo base (first ++ second) before after := by
  refine ⟨fun proper => two.proper (one.proper proper), fun p => (two.content p).trans (one.content p),
    fun p => (two.value p).trans (one.value p), fun p name => ?_⟩
  rw [two.readers, one.readers, List.mem_append]
  tauto

theorem linkedTo_link (draft : Draft) (base target : Address) :
    LinkedTo base [target] draft.cells (draft.link base target).cells := by
  refine ⟨fun proper => Draft.link_proper proper base target, Draft.content?_link draft base target,
    Draft.valueAt_link draft base target, fun p name => ?_⟩
  rw [Draft.mem_readers_link, List.mem_singleton, eq_comm]

end Cells

open Cells

mutual

/-- Evaluation ends as the formula does under the values at the start. When it succeeds, it has told the cell to
all that the formula reads. -/
theorem evaluate_outcome (base : Address) : ∀ (formula : Formula) (draft : Draft),
    Ends (evaluate base formula) draft
      (fun v next => formula.valueIn base draft.cells.valueAt = .ok v ∧
        LinkedTo base (formula.targets base) draft.cells next.cells)
      (fun fault _ => formula.valueIn base draft.cells.valueAt = .error fault)
  | .number x, draft => by
      unfold Formula.valueIn
      rw [evaluate, ends_pure, Formula.targets_number, Formula.value]
      exact ⟨rfl, LinkedTo.refl base draft.cells⟩
  | .reference r, draft => by
      unfold Formula.valueIn
      rw [evaluate, Formula.value]
      cases denotes : r.resolve? base with
      | none =>
        simp only
        rw [ends_throw, Formula.lookup, denotes]
      | some target =>
        rw [Formula.targets_reference denotes, Formula.lookup_of_resolves denotes]
        simp only
        rw [ends_bind, ends_modify, ends_bind, ends_get, ends_pure, Draft.valueAt_link]
        exact ⟨rfl, linkedTo_link draft base target⟩
  | .apply operator operands, draft => by
      rw [evaluate, ends_bind, Formula.targets_apply]
      refine (evaluateAll_outcome base operands draft).mono (fun vs next all => ?_) (fun fault _ failed => ?_)
      · obtain ⟨values, linked⟩ := all
        cases result : operator.value? vs with
        | none =>
          rw [Formula.valueIn, Formula.value, values]
          simp only [ends_throw, bind, Except.bind, result]
          rfl
        | some v => exact ⟨Formula.value_apply values result, linked⟩
      · rw [Formula.valueIn, Formula.value, failed]
        rfl

theorem evaluateAll_outcome (base : Address) : ∀ (operands : List Formula) (draft : Draft),
    Ends (evaluateAll base operands) draft
      (fun vs next => Formula.values (Formula.lookup base draft.cells.valueAt) operands = .ok vs ∧
        LinkedTo base (operands.flatMap (Formula.targets base)) draft.cells next.cells)
      (fun fault _ => Formula.values (Formula.lookup base draft.cells.valueAt) operands = .error fault)
  | [], draft => by
      rw [evaluateAll, ends_pure, Formula.values]
      exact ⟨rfl, LinkedTo.refl base draft.cells⟩
  | x :: xs, draft => by
      rw [evaluateAll, ends_bind, Formula.values]
      refine (evaluate_outcome base x draft).mono (fun v mid first => ?_) (fun fault _ failed => ?_)
      · obtain ⟨value, linked⟩ := first
        unfold Formula.valueIn at value
        rw [value, ends_bind]
        refine (evaluateAll_outcome base xs mid).mono (fun vs next rest => ?_) (fun fault _ failed => ?_)
        · obtain ⟨values, others⟩ := rest
          -- Links change no value, so the later operands see the values from the start.
          rw [funext linked.value] at values
          rw [ends_pure, List.flatMap_cons, values]
          exact ⟨rfl, linked.trans others⟩
        · rw [funext linked.value] at failed
          rw [failed]
          rfl
      · unfold Formula.valueIn at failed
        rw [failed]
        rfl

end

structure Settles (a : Address) (formula : Formula) (before after : Cells) : Prop where
  content : ∀ p, after.content? p = before.content? p
  readers : ∀ p name, name ∈ after.readers p ↔
    (p ∈ formula.targets a ∧ a.name = name) ∨ name ∈ before.readers p
  others : ∀ p, a ≠ p → after.valueAt p = before.valueAt p
  value : formula.valueIn a before.valueAt = .ok (after.valueAt a)

theorem Settles.formula? {a : Address} {formula : Formula} {before after : Cells}
    (settles : Settles a formula before after) (p : Address) :
    after.formula? p = before.formula? p := by
  unfold Cells.formula?
  rw [settles.content]

theorem settle_outcome {a : Address} {formula : Formula} {draft : Draft}
    (held : draft.cells.formula? a = some formula) :
    Ends (settle a) draft
      (fun _ next => (draft.cells.Proper → next.cells.Proper) ∧ Settles a formula draft.cells next.cells)
      (fun fault _ => formula.valueIn a draft.cells.valueAt = .error fault) := by
  obtain ⟨content, inner, same⟩ := formula?_eq_some_iff.1 held
  subst same
  unfold settle
  rw [ends_bind, ends_get, inner]
  simp only
  rw [ends_bind]
  refine (evaluate_outcome a content.formula draft).mono (fun v mid evaluated => ?_) (fun _ _ failed => failed)
  obtain ⟨value, linked⟩ := evaluated
  rw [ends_modify]
  refine ⟨fun proper => ?_, ?_⟩
  · exact Draft.setValue_proper v (linked.proper proper) ((linked.content a).trans inner)
  constructor
  · intro p
    rw [Draft.content?_setValue, linked.content]
  · intro p name
    rw [Draft.readers_setValue, linked.readers]
  · intro p different
    rw [Draft.valueAt_setValue, if_neg different, linked.value]
  · rw [Draft.valueAt_setValue, if_pos rfl]
    exact value

theorem settle_ends {a : Address} {formula : Formula} {draft : Draft}
    (proper : draft.cells.Proper) (held : draft.cells.formula? a = some formula) :
    Ends (settle a) draft
      (fun _ next => next.cells.Proper ∧ Settles a formula draft.cells next.cells)
      (fun _ _ => False) := by
  refine (settle_outcome held).mono (fun _ _ result => ⟨result.1 proper, result.2⟩) (fun fault _ failed => ?_)
  obtain ⟨v, value⟩ := (proper.wellFormed held).valueIn_exists draft.cells.valueAt
  cases value.symm.trans failed

section

variable {formulas : Address → Option Formula} {cells after : Cells}

theorem Cells.Working.formulaAt?_eq_some (working : Working formulas cells) {name : String}
    {a : Address} :
    cells.formulaAt? name = some a ↔ a.name = name ∧ ∃ formula, formulas a = some formula := by
  rw [working.proper.formulaAt?_eq_some, working.formula]

theorem Cells.Working.unheld_of_absent (working : Working formulas cells) {name : String}
    (absent : cells.formulaAt? name = none) {c : Address} (same : c.name = name) :
    formulas c = none := by
  cases held : formulas c with
  | none => rfl
  | some formula =>
    rw [working.formulaAt?_eq_some.2 ⟨same, formula, held⟩] at absent
    cases absent

theorem Cells.Working.settled_of_absent (working : Working formulas cells) {name : String}
    (absent : cells.formulaAt? name = none) {c : Address} (same : c.name = name) :
    cells.Settled c := by
  intro formula held
  rw [working.formula, working.unheld_of_absent absent same] at held
  cases held

theorem Cells.Working.settles {a : Address} {formula : Formula} (working : Working formulas cells)
    (proper : after.Proper) (held : formulas a = some formula)
    (settles : Settles a formula cells after) : Working formulas after := by
  refine ⟨proper, fun p => (settles.formula? p).trans (working.formula p), fun p name told => ?_⟩
  rcases (settles.readers p name).1 told with new | old
  · exact ⟨a, new.2, formula, held, new.1⟩
  · exact working.sound p name old

theorem settle_working {a : Address} {formula : Formula} {draft : Draft}
    (working : Working formulas draft.cells) (held : formulas a = some formula) :
    Ends (settle a) draft
      (fun _ next => Working formulas next.cells ∧ Settles a formula draft.cells next.cells)
      (fun _ _ => False) :=
  (settle_ends working.proper ((working.formula a).trans held)).mono
    (fun _ _ result => ⟨working.settles result.1 held result.2, result.2⟩) (fun _ _ never => never)

/-- A cell that settling `a` disturbs is told to `a` as a reader. -/
theorem Settles.settled {a c : Address} {formula : Formula} (settles : Settles a formula cells after)
    (proper : cells.Proper) (held : cells.formula? a = some formula)
    (before : c = a ∨ cells.Settled c) (untold : c.name ∉ after.readers a) : after.Settled c := by
  intro other inner
  rw [settles.formula?] at inner
  -- the links of `c` are complete after the step, so the formula of `c` does not read `a`
  have links : ∀ p ∈ other.targets c, c.name ∈ after.readers p := by
    intro p read
    rw [settles.readers]
    rcases before with same | settled
    · subst same
      rw [held] at inner
      cases inner
      exact .inl ⟨read, rfl⟩
    · exact .inr ((settled other inner).1 p read)
  have apart : ∀ p ∈ other.targets c, a ≠ p := by
    intro p read same
    exact untold (same ▸ links p read)
  refine ⟨links, ?_⟩
  have value : other.valueIn c cells.valueAt = .ok (after.valueAt c) := by
    by_cases same : c = a
    · subst same
      rw [held] at inner
      cases inner
      exact settles.value
    · rw [settles.others c fun back => same back.symm]
      rcases before with back | settled
      · exact absurd back same
      · exact (settled other inner).2
  rw [← value]
  exact (proper.wellFormed inner).valueIn_congr fun p read => settles.others p (apart p read)

/-- After the action the cells of `todo` are settled, beside whatever was settled before, or `left`
for others to settle. -/
def SettlesAll (formulas : Address → Option Formula) (todo : List String) (action : Action Unit) :
    Prop :=
  ∀ (left : Address → Prop) (draft : Draft), Working formulas draft.cells →
    (∀ c, ¬ draft.cells.Settled c → c.name ∈ todo ∨ left c) →
    Ends action draft
      (fun _ next => Working formulas next.cells ∧ ∀ c, ¬ next.cells.Settled c → left c)
      (fun _ _ => True)

theorem settlesAll_visit_passed {waiting : List String} {name : String} (absent : name ∉ waiting) :
    SettlesAll formulas [name] (visit waiting.length waiting name) := by
  intro left draft working unsettled
  rw [ends_visit_passed absent]
  split
  next empty =>
    refine ⟨working, fun c unfinished => (unsettled c unfinished).resolve_left fun same => ?_⟩
    exact unfinished (working.settled_of_absent empty (List.mem_singleton.1 same))
  next => exact trivial

theorem settlesAll_visit_waiting {waiting : List String} {name : String} (member : name ∈ waiting)
    (inner : ∀ todo, SettlesAll formulas todo (cascade (waiting.erase name) todo)) :
    SettlesAll formulas [name] (visit waiting.length waiting name) := by
  intro left draft working unsettled
  rw [ends_visit_waiting member]
  split
  next empty =>
    refine ⟨working, fun c unfinished => (unsettled c unfinished).resolve_left fun same => ?_⟩
    exact unfinished (working.settled_of_absent empty (List.mem_singleton.1 same))
  next a found =>
    obtain ⟨named, formula, held⟩ := working.formulaAt?_eq_some.1 found
    refine (settle_working working held).mono (fun _ mid result => ?_) (fun _ _ never => never.elim)
    obtain ⟨next, settles⟩ := result
    -- what the step disturbs is told as a reader, and the inner cascade visits all readers
    refine inner _ left mid next fun c unfinished => ?_
    rw [Std.ExtTreeSet.mem_toList]
    by_contra neither
    rw [not_or] at neither
    apply unfinished
    refine settles.settled working.proper ((working.formula a).trans held) ?_ neither.1
    by_contra disturbed
    rw [not_or] at disturbed
    rcases unsettled c disturbed.2 with same | other
    · exact disturbed.1 (Address.name_injective ((List.mem_singleton.1 same).trans named.symm))
    · exact neither.2 other

theorem settlesAll_cascade_cons {waiting rest : List String} {name : String}
    (first : SettlesAll formulas [name] (visit waiting.length waiting name))
    (second : SettlesAll formulas rest (cascade waiting rest)) :
    SettlesAll formulas (name :: rest) (cascade waiting (name :: rest)) := by
  intro left draft working unsettled
  rw [ends_cascade_cons]
  refine (first (fun c => c.name ∈ rest ∨ left c) draft working fun c unfinished => ?_).mono
    (fun _ mid result => second left mid result.1 result.2) (fun _ _ stop => stop)
  rcases unsettled c unfinished with member | other
  · rcases List.mem_cons.1 member with same | later
    · exact .inl (List.mem_singleton.2 same)
    · exact .inr (.inl later)
  · exact .inr (.inr other)

theorem cascade_settles (waiting todo : List String) :
    SettlesAll formulas todo (cascade waiting todo) := by
  refine cascade_induction
    (fun waiting name => SettlesAll formulas [name] (visit waiting.length waiting name))
    (fun waiting todo => SettlesAll formulas todo (cascade waiting todo))
    (fun _ _ absent => settlesAll_visit_passed absent)
    (fun _ _ member inner => settlesAll_visit_waiting member inner) (fun waiting => ?_)
    (fun _ _ _ first second => settlesAll_cascade_cons first second) waiting todo
  intro left draft working unsettled
  refine ⟨working, fun c unfinished => ?_⟩
  exact (unsettled c unfinished).resolve_left List.not_mem_nil

end

end Worksheet
