import Mathlib.Logic.Relation
import Worksheet.Proofs.Sheet.Settling

/-! Circles. A cascade fails only where a path comes back to one of its own cells. It ends well
exactly when no cell that reads on from its list, over any number of steps, lies outside the waiting
cells; and when it fails, the cell that it names is either such a cell or part of a circle of waiting
cells. -/

namespace Worksheet

open Cells Relation

section

variable {formulas : Address → Option Formula}

def Cells.Told (formulas : Address → Option Formula) (cells : Cells) : Prop :=
  ∀ a p, Reads formulas a p → (∃ formula, formulas p = some formula) → a.name ∈ cells.readers p

def ReadsWaiting (formulas : Address → Option Formula) (waiting : List String) (a p : Address) :
    Prop :=
  Reads formulas a p ∧ p.name ∈ waiting

theorem ReadsWaiting.of_erase {waiting : List String} {name : String} {a p : Address}
    (step : ReadsWaiting formulas (waiting.erase name) a p) : ReadsWaiting formulas waiting a p :=
  ⟨step.1, List.mem_of_mem_erase step.2⟩

/-- Where a cascade from `start` may stop: at a cell `d` that does not wait and reads on from `start`
through waiting cells, or at a cell of a circle of waiting cells. -/
def Blocked (formulas : Address → Option Formula) (waiting : List String) (d start : Address) : Prop :=
  (d.name ∉ waiting ∧ ReflTransGen (ReadsWaiting formulas waiting) d start) ∨
    TransGen (ReadsWaiting formulas waiting) d d

theorem Blocked.step {waiting : List String} {a d reader : Address}
    (blocked : Blocked formulas (waiting.erase a.name) d reader) (member : a.name ∈ waiting)
    (reads : Reads formulas reader a) : Blocked formulas waiting d a := by
  rcases blocked with ⟨outside, path⟩ | circle
  · have wider : ReflTransGen (ReadsWaiting formulas waiting) d reader :=
      path.lift id fun _ _ step => step.of_erase
    have last : ReadsWaiting formulas waiting reader a := ⟨reads, member⟩
    by_cases same : d = a
    · subst same
      exact .inr (TransGen.tail' wider last)
    · refine .inl ⟨fun inside => outside ?_, wider.tail last⟩
      exact (List.mem_erase_of_ne fun names => same (Address.name_injective names)).2 inside
  · exact .inr (circle.lift id fun _ _ step => step.of_erase)

theorem Cells.Told.settles {cells after : Cells} {a : Address} {formula : Formula}
    (told : Told formulas cells) (settles : Settles a formula cells after) : Told formulas after := by
  intro c p reads held
  rw [settles.readers]
  exact .inr (told c p reads held)

/-- How an action ends that visits the cells of `todo`: well only if nothing that reads on from them,
however far, lies outside the waiting cells, and else with the name of a cell that blocks it. -/
def Traces (formulas : Address → Option Formula) (waiting todo : List String)
    (action : Action Unit) : Prop :=
  ∀ draft : Draft, Working formulas draft.cells → Told formulas draft.cells →
    Ends action draft
      (fun _ next => Working formulas next.cells ∧ Told formulas next.cells ∧
        ∀ start d, start.name ∈ todo → (∃ formula, formulas start = some formula) →
          ReflTransGen (Reads formulas) d start → d.name ∈ waiting)
      (fun fault _ => ∃ start d, start.name ∈ todo ∧ (∃ formula, formulas d = some formula) ∧
        fault = .circular d.name ∧ Blocked formulas waiting d start)

theorem Cells.Working.within_of_absent {cells : Cells} {waiting : List String} {name : String}
    (working : Working formulas cells) (absent : cells.formulaAt? name = none) (start d : Address)
    (listed : start.name ∈ [name]) (held : ∃ formula, formulas start = some formula)
    (_ : ReflTransGen (Reads formulas) d start) : d.name ∈ waiting := by
  obtain ⟨formula, held⟩ := held
  rw [working.unheld_of_absent absent (List.mem_singleton.1 listed)] at held
  cases held

theorem traces_visit_passed {waiting : List String} {name : String} (absent : name ∉ waiting) :
    Traces formulas waiting [name] (visit waiting.length waiting name) := by
  intro draft working told
  rw [ends_visit_passed absent]
  split
  next empty => exact ⟨working, told, working.within_of_absent empty⟩
  next a found =>
    obtain ⟨named, held⟩ := working.formulaAt?_eq_some.1 found
    exact ⟨a, a, List.mem_singleton.2 named, held, by rw [named], .inl ⟨named ▸ absent, .refl⟩⟩

theorem traces_visit_waiting {waiting : List String} {name : String} (member : name ∈ waiting)
    (inner : ∀ todo, Traces formulas (waiting.erase name) todo
      (cascade (waiting.erase name) todo)) :
    Traces formulas waiting [name] (visit waiting.length waiting name) := by
  intro draft working told
  rw [ends_visit_waiting member]
  split
  next empty => exact ⟨working, told, working.within_of_absent empty⟩
  next a found =>
    obtain ⟨named, formula, held⟩ := working.formulaAt?_eq_some.1 found
    subst named
    refine (settle_working working held).mono (fun _ mid result => ?_) (fun _ _ never => never.elim)
    obtain ⟨next, settles⟩ := result
    have informed := told.settles settles
    refine (inner _ mid next informed).mono (fun _ last done => ?_) (fun fault _ failed => ?_)
    · obtain ⟨working, told, within⟩ := done
      refine ⟨working, told, fun start d listed _ path => ?_⟩
      have home := Address.name_injective (List.mem_singleton.1 listed)
      subst home
      -- a path that ends in `start` comes through one of its readers, or has no steps
      rcases ReflTransGen.cases_tail path with same | ⟨reader, front, reads⟩
      · exact same ▸ member
      · apply List.mem_of_mem_erase (b := start.name)
        refine within reader d ?_ ⟨reads.choose, reads.choose_spec.1⟩ front
        rw [Std.ExtTreeSet.mem_toList]
        exact informed reader start reads ⟨formula, held⟩
    · obtain ⟨reader, d, listed, inside, same, blocked⟩ := failed
      rw [Std.ExtTreeSet.mem_toList] at listed
      obtain ⟨c, names, reads⟩ := next.sound a reader.name listed
      have home := Address.name_injective names
      subst home
      exact ⟨a, d, List.mem_singleton_self a.name, inside, same, blocked.step member reads⟩

theorem traces_cascade_cons {waiting rest : List String} {name : String}
    (first : Traces formulas waiting [name] (visit waiting.length waiting name))
    (second : Traces formulas waiting rest (cascade waiting rest)) :
    Traces formulas waiting (name :: rest) (cascade waiting (name :: rest)) := by
  intro draft working told
  rw [ends_cascade_cons]
  refine (first draft working told).mono (fun _ mid done => ?_) (fun fault _ failed => ?_)
  · obtain ⟨working, told, here⟩ := done
    refine (second mid working told).mono (fun _ last done => ?_) (fun fault _ failed => ?_)
    · obtain ⟨working, told, there⟩ := done
      refine ⟨working, told, fun start d member held path => ?_⟩
      rcases List.mem_cons.1 member with same | later
      · exact here start d (List.mem_singleton.2 same) held path
      · exact there start d later held path
    · obtain ⟨start, d, member, rest⟩ := failed
      exact ⟨start, d, List.mem_cons_of_mem name member, rest⟩
  · obtain ⟨start, d, member, rest⟩ := failed
    exact ⟨start, d, List.mem_cons.2 (.inl (List.mem_singleton.1 member)), rest⟩

theorem cascade_outcome (waiting todo : List String) :
    Traces formulas waiting todo (cascade waiting todo) := by
  refine cascade_induction
    (fun waiting name => Traces formulas waiting [name] (visit waiting.length waiting name))
    (fun waiting todo => Traces formulas waiting todo (cascade waiting todo))
    (fun _ _ absent => traces_visit_passed absent)
    (fun _ _ member inner => traces_visit_waiting member inner) (fun waiting => ?_)
    (fun _ _ _ first second => traces_cascade_cons first second) waiting todo
  intro draft working told
  exact ⟨working, told, fun start d member => absurd member List.not_mem_nil⟩

end

end Worksheet
