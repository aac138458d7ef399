import Worksheet.Proofs.Sheet.Circles

/-! Cells at rest. Between two operations every record is proper, a cell is told exactly its readers,
no cell reads itself over any number of steps, and every formula cell is settled. -/

namespace Worksheet

open Relation

/-- Who is told as a reader of `p` are exactly the cells that read it, no cell reads itself over any
number of steps, and every cell is settled. -/
structure Cells.Intact (cells : Cells) : Prop where
  proper : cells.Proper
  told : ∀ p name, name ∈ cells.readers p ↔ ∃ a, a.name = name ∧ Reads cells.formula? a p
  acyclic : ∀ a, ¬ TransGen (Reads cells.formula?) a a
  settled : ∀ a, cells.Settled a

namespace Cells

def ClosesCircle (cells : Cells) (a : Address) (formula : Formula) : Prop :=
  TransGen (Reads (Function.update cells.formula? a (some formula))) a a

variable {cells : Cells}

theorem mem_formulaNames {name : String} :
    name ∈ cells.formulaNames ↔ ∃ a, cells.formulaAt? name = some a := by
  unfold formulaNames
  rw [List.mem_filter, Std.ExtTreeMap.mem_keys, Option.isSome_iff_exists]
  refine and_iff_right_of_imp fun found => ?_
  obtain ⟨a, found⟩ := found
  obtain ⟨cell, held, _⟩ := Option.bind_eq_some_iff.1 found
  rw [Std.ExtTreeMap.mem_iff_isSome_getElem?, held]
  rfl

theorem Keyed.mem_formulaNames (keyed : cells.Keyed) {a : Address} :
    a.name ∈ cells.formulaNames ↔ ∃ formula, cells.formula? a = some formula := by
  rw [Cells.mem_formulaNames]
  constructor
  · intro found
    obtain ⟨other, found⟩ := found
    obtain ⟨same, held⟩ := keyed.formulaAt?_eq_some.1 found
    exact Address.name_injective same ▸ held
  · intro held
    exact ⟨a, keyed.formulaAt?_eq_some.2 ⟨rfl, held⟩⟩

theorem Proper.map_name_filterMap (proper : cells.Proper) {names : List String}
    (held : ∀ name ∈ names, ∃ a, cells.formulaAt? name = some a) :
    (names.filterMap cells.formulaAt?).map Address.name = names := by
  induction names with
  | nil => rfl
  | cons name rest ih =>
    obtain ⟨a, found⟩ := held name List.mem_cons_self
    rw [List.filterMap_cons_some found, List.map_cons, (proper.formulaAt?_eq_some_iff.1 found).1,
      ih fun other member => held other (List.mem_cons_of_mem name member)]

theorem nodup_formulaNames (cells : Cells) : cells.formulaNames.Nodup :=
  Std.ExtTreeMap.nodup_keys.filter _

theorem Intact.formula_of_told (intact : cells.Intact) {a p : Address}
    (told : a.name ∈ cells.readers p) : Reads cells.formula? a p := by
  obtain ⟨other, same, reads⟩ := (intact.told p a.name).1 told
  exact Address.name_injective same ▸ reads

theorem Intact.working (intact : cells.Intact) : Working cells.formula? cells :=
  ⟨intact.proper, fun _ => rfl, fun p name told => (intact.told p name).1 told⟩

theorem Working.intact {formulas : Address → Option Formula} (working : Working formulas cells)
    (acyclic : ∀ a, ¬ TransGen (Reads formulas) a a) (settled : ∀ a, cells.Settled a) :
    cells.Intact := by
  have same : cells.formula? = formulas := funext working.formula
  refine ⟨working.proper, fun p name => ⟨fun told => ?_, fun reader => ?_⟩, ?_, settled⟩
  · rw [same]
    exact working.sound p name told
  · obtain ⟨a, rfl, formula, held, read⟩ := reader
    exact (settled a formula held).1 p read
  · rw [same]
    exact acyclic

theorem Working.mem_formulaNames {formulas : Address → Option Formula}
    (working : Working formulas cells) {a : Address} :
    a.name ∈ cells.formulaNames ↔ ∃ formula, formulas a = some formula := by
  rw [working.proper.keyed.mem_formulaNames, working.formula]

theorem intact_empty : Intact ∅ := by
  have nothing : ∀ name : String, (∅ : Cells)[name]? = none :=
    fun name => Std.ExtTreeMap.getElem?_empty
  have unheld : ∀ a, (∅ : Cells).formula? a = none := by
    intro a
    unfold formula? content?
    rw [nothing]
    rfl
  have unread : ∀ a p, ¬ Reads (∅ : Cells).formula? a p := by
    intro a p reads
    obtain ⟨formula, held, _⟩ := reads
    rw [unheld] at held
    cases held
  refine ⟨fun name cell held => ?_, fun p name => ⟨fun told => ?_, fun reader => ?_⟩, fun a circle => ?_,
    fun a formula held => ?_⟩
  · rw [nothing] at held
    cases held
  · unfold readers at told
    rw [nothing] at told
    exact absurd told Std.ExtTreeSet.not_mem_empty
  · obtain ⟨a, _, reads⟩ := reader
    exact absurd reads (unread a p)
  · obtain ⟨b, _, reads⟩ := TransGen.tail'_iff.1 circle
    exact unread b a reads
  · rw [unheld] at held
    cases held

end Cells

section

variable {formulas : Address → Option Formula} {a : Address} {new : Option Formula}

theorem reads_update_of_ne {c p : Address} (different : c ≠ a) :
    Reads (Function.update formulas a new) c p ↔ Reads formulas c p := by
  unfold Reads
  rw [Function.update_of_ne different]

theorem reads_of_reads_cleared {c p : Address}
    (reads : Reads (Function.update formulas a none) c p) : Reads formulas c p := by
  by_cases same : c = a
  · subst same
    obtain ⟨formula, held, _⟩ := reads
    rw [Function.update_self] at held
    cases held
  · exact (reads_update_of_ne same).1 reads

/-- A path that starts elsewhere was there before `a` was changed, or it passes through `a`. -/
theorem path_update {c d : Address} (different : c ≠ a)
    (path : TransGen (Reads (Function.update formulas a new)) c d) :
    TransGen (Reads formulas) c d ∨
      (TransGen (Reads (Function.update formulas a new)) c a ∧
        ReflTransGen (Reads (Function.update formulas a new)) a d) := by
  induction path with
  | single reads => exact .inl (.single ((reads_update_of_ne different).1 reads))
  | @tail p q front reads ih =>
    rcases ih with old | ⟨into, onward⟩
    · by_cases same : p = a
      · subst same
        exact .inr ⟨front, .single reads⟩
      · exact .inl (old.tail ((reads_update_of_ne same).1 reads))
    · exact .inr ⟨into, onward.tail reads⟩

theorem acyclic_update (acyclic : ∀ c, ¬ TransGen (Reads formulas) c c)
    (free : ¬ TransGen (Reads (Function.update formulas a new)) a a) :
    ∀ c, ¬ TransGen (Reads (Function.update formulas a new)) c c := by
  intro c circle
  by_cases same : c = a
  · exact free (same ▸ circle)
  · -- a circle elsewhere is an old one, or it leads through `a` and can be begun there
    rcases path_update same circle with old | ⟨into, back⟩
    · exact acyclic c old
    · exact free (TransGen.trans_right back into)

end

end Worksheet
