import Worksheet.Proofs.Sheet.Intact

/-! Where a cascade leads. It goes from a cell to the formula cells that are told as its readers, and changes no
formula. Where every cell is told its readers already it changes no reader either; then it fails only on a circle,
and it does so whenever it leads to one. -/

namespace Worksheet

open Cells Relation

namespace Cells

def HasFormula (cells : Cells) (p : Address) : Prop := ∃ formula, cells.formula? p = some formula

structure Steady (before after : Cells) : Prop where
  keyed : after.Keyed
  formula : ∀ p, after.formula? p = before.formula? p

/-- `p` is told the formula cell `c` as a reader. A reader without a formula leads nowhere. -/
def Feeds (cells : Cells) (p c : Address) : Prop := c.name ∈ cells.readers p ∧ cells.HasFormula c

def Registered (cells : Cells) : Prop :=
  ∀ a formula, cells.formula? a = some formula → ∀ r ∈ formula.references,
    ∃ p, r.resolve? a = some p ∧ a.name ∈ cells.readers p

structure Unmoved (before after : Cells) : Prop where
  steady : before.Steady after
  readers : ∀ p name, name ∈ after.readers p ↔ name ∈ before.readers p

end Cells

section

variable {before after : Cells} {draft : Draft} {a c p : Address} {name : String}

theorem Cells.Keyed.steady (keyed : before.Keyed) : before.Steady before := ⟨keyed, fun _ => rfl⟩

theorem Cells.Steady.hasFormula (steady : before.Steady after) (p : Address) :
    after.HasFormula p ↔ before.HasFormula p := by
  unfold HasFormula
  rw [steady.formula]

theorem Cells.Steady.formulaAt?_eq_some (steady : before.Steady after) :
    after.formulaAt? name = some a ↔ a.name = name ∧ before.HasFormula a := by
  rw [steady.keyed.formulaAt?_eq_some]
  exact and_congr_right fun _ => steady.hasFormula a

theorem settle_keeps_steady (before : Cells) (a : Address) :
    Keeps (fun draft => before.Steady draft.cells) (settle a) := by
  refine settle_keeps a (fun draft target steady => ?_) (fun draft value steady => ?_)
  · refine ⟨Draft.link_keyed steady.keyed a target, fun p => ?_⟩
    rw [← steady.formula, Cells.formula?, Cells.formula?, Draft.content?_link]
  · refine ⟨Draft.setValue_keyed steady.keyed a value, fun p => ?_⟩
    rw [← steady.formula, Cells.formula?, Cells.formula?, Draft.content?_setValue]

theorem Cells.Registered.told (registered : before.Registered) {formula : Formula}
    (held : before.formula? a = some formula) (read : p ∈ formula.targets a) : a.name ∈ before.readers p := by
  obtain ⟨r, member, leads⟩ := List.mem_filterMap.1 read
  obtain ⟨target, denotes, told⟩ := registered a formula held r member
  cases denotes.symm.trans leads
  exact told

theorem settle_unmoved (registered : before.Registered) (unmoved : before.Unmoved draft.cells)
    (held : before.HasFormula a) :
    Ends (settle a) draft (fun _ next => before.Unmoved next.cells) (fun _ _ => False) := by
  obtain ⟨formula, held⟩ := held
  have here := (unmoved.steady.formula a).trans held
  refine ((settle_keeps_steady before a draft unmoved.steady).and (settle_outcome here)).mono
    (fun _ last result => ?_) (fun fault last failed => ?_)
  · obtain ⟨steady, _, settles⟩ := result
    refine ⟨steady, fun p name => ?_⟩
    rw [settles.readers, unmoved.readers]
    refine or_iff_right_of_imp fun new => ?_
    obtain ⟨read, rfl⟩ := new
    exact registered.told held read
  · obtain ⟨_, r, member, nowhere⟩ := (unmoved.steady.keyed.applied here).valueIn_error failed.2
    obtain ⟨target, denotes, _⟩ := registered a formula held r member
    cases nowhere.symm.trans denotes

theorem Cells.Feeds.hasFormula (held : before.HasFormula a) (path : ReflTransGen before.Feeds a c) :
    before.HasFormula c := by
  rcases ReflTransGen.cases_tail path with rfl | ⟨p, _, feeds⟩
  · exact held
  · exact feeds.2

/-- How an action ends that looks at the names of `todo`: well only if what they lead to is waiting and on no
circle, and else with the name of a cell that they lead to and that is on a circle, if it was waiting. -/
def Surveys (before : Cells) (waiting todo : List String) (action : Action Unit) : Prop :=
  ∀ draft : Draft, before.Unmoved draft.cells → waiting.Nodup →
    Ends action draft
      (fun _ last => before.Unmoved last.cells ∧
        ∀ s c, s.name ∈ todo → before.HasFormula s → ReflTransGen before.Feeds s c →
          c.name ∈ waiting ∧ ¬ TransGen before.Feeds c c)
      (fun fault _ => ∃ s c, s.name ∈ todo ∧ before.HasFormula s ∧ ReflTransGen before.Feeds s c ∧
        fault = .circular c.name ∧ (c.name ∈ waiting → TransGen before.Feeds c c))

theorem Cells.Unmoved.surveyed_of_absent {waiting : List String} {name : String}
    (unmoved : before.Unmoved after) (absent : after.formulaAt? name = none) (s c : Address)
    (listed : s.name ∈ [name]) (held : before.HasFormula s) (_ : ReflTransGen before.Feeds s c) :
    c.name ∈ waiting ∧ ¬ TransGen before.Feeds c c := by
  rw [unmoved.steady.formulaAt?_eq_some.2 ⟨List.mem_singleton.1 listed, held⟩] at absent
  cases absent

theorem surveys_visit_passed {waiting : List String} {name : String} (off : name ∉ waiting) :
    Surveys before waiting [name] (visit waiting.length waiting name) := by
  intro draft unmoved _
  rw [ends_visit_passed off]
  split
  next absent => exact ⟨unmoved, unmoved.surveyed_of_absent absent⟩
  next a found =>
    obtain ⟨rfl, held⟩ := unmoved.steady.formulaAt?_eq_some.1 found
    exact ⟨a, a, List.mem_singleton_self a.name, held, .refl, rfl, fun waits => absurd waits off⟩

theorem surveys_visit_waiting (registered : before.Registered) {waiting : List String} {name : String}
    (member : name ∈ waiting)
    (inner : ∀ todo, Surveys before (waiting.erase name) todo (cascade (waiting.erase name) todo)) :
    Surveys before waiting [name] (visit waiting.length waiting name) := by
  intro draft unmoved nodup
  rw [ends_visit_waiting member]
  split
  next absent => exact ⟨unmoved, unmoved.surveyed_of_absent absent⟩
  next a found =>
    obtain ⟨rfl, held⟩ := unmoved.steady.formulaAt?_eq_some.1 found
    refine (settle_unmoved registered unmoved held).mono (fun _ mid unmoved => ?_) (fun _ _ never => never.elim)
    have listed : ∀ s : Address, s.name ∈ (mid.cells.readers a).toList ↔ s.name ∈ before.readers a := by
      intro s
      rw [Std.ExtTreeSet.mem_toList, unmoved.readers]
    refine (inner _ mid unmoved (nodup.erase a.name)).mono (fun _ last done => ?_) (fun fault last failed => ?_)
    · obtain ⟨unmoved, surveyed⟩ := done
      have below : ∀ s, before.Feeds a s → ∀ c, ReflTransGen before.Feeds s c →
          c.name ∈ waiting.erase a.name ∧ ¬ TransGen before.Feeds c c :=
        fun s feeds c path => surveyed s c ((listed s).2 feeds.1) feeds.2 path
      refine ⟨unmoved, fun s c start _ path => ?_⟩
      cases Address.name_injective (List.mem_singleton.1 start)
      rcases ReflTransGen.cases_head path with rfl | ⟨s, feeds, path⟩
      · -- a circle through `a` would bring it up again among the cells that are left
        refine ⟨member, fun circle => ?_⟩
        obtain ⟨s, feeds, back⟩ := TransGen.head'_iff.1 circle
        exact (nodup.mem_erase_iff.1 (below s feeds _ back).1).1 rfl
      · obtain ⟨waits, free⟩ := below s feeds c path
        exact ⟨List.mem_of_mem_erase waits, free⟩
    · obtain ⟨s, c, start, formula, path, same, circle⟩ := failed
      have feeds : before.Feeds a s := ⟨(listed s).1 start, formula⟩
      refine ⟨a, c, List.mem_singleton_self a.name, held, path.head feeds, same, fun waits => ?_⟩
      by_cases home : c = a
      · subst home
        exact TransGen.head' feeds path
      · exact circle ((List.mem_erase_of_ne fun names => home (Address.name_injective names)).2 waits)

theorem surveys_cascade_cons {waiting later : List String} {name : String}
    (first : Surveys before waiting [name] (visit waiting.length waiting name))
    (second : Surveys before waiting later (cascade waiting later)) :
    Surveys before waiting (name :: later) (cascade waiting (name :: later)) := by
  intro draft unmoved nodup
  rw [ends_cascade_cons]
  refine (first draft unmoved nodup).mono (fun _ mid done => ?_) (fun fault _ failed => ?_)
  · obtain ⟨unmoved, here⟩ := done
    refine (second mid unmoved nodup).mono (fun _ last done => ?_) (fun fault _ failed => ?_)
    · obtain ⟨unmoved, there⟩ := done
      refine ⟨unmoved, fun s c member held path => ?_⟩
      rcases List.mem_cons.1 member with same | behind
      · exact here s c (List.mem_singleton.2 same) held path
      · exact there s c behind held path
    · obtain ⟨s, c, member, rest⟩ := failed
      exact ⟨s, c, List.mem_cons_of_mem name member, rest⟩
  · obtain ⟨s, c, member, rest⟩ := failed
    exact ⟨s, c, List.mem_cons.2 (.inl (List.mem_singleton.1 member)), rest⟩

theorem surveys_cascade (registered : before.Registered) (waiting todo : List String) :
    Surveys before waiting todo (cascade waiting todo) := by
  refine cascade_induction
    (fun waiting name => Surveys before waiting [name] (visit waiting.length waiting name))
    (fun waiting todo => Surveys before waiting todo (cascade waiting todo))
    (fun _ _ absent => surveys_visit_passed absent)
    (fun _ _ member inner => surveys_visit_waiting registered member inner) (fun waiting => ?_)
    (fun _ _ _ first second => surveys_cascade_cons first second) waiting todo
  intro draft unmoved _
  exact ⟨unmoved, fun s c member => absurd member List.not_mem_nil⟩

theorem recompute_surveys (keyed : draft.cells.Keyed) (registered : draft.cells.Registered)
    (held : draft.cells.HasFormula a) :
    Ends (recompute [a.name]) draft
      (fun _ _ => ∀ c, ReflTransGen draft.cells.Feeds a c → ¬ TransGen draft.cells.Feeds c c)
      (fun fault _ => ∃ c, fault = .circular c.name ∧ ReflTransGen draft.cells.Feeds a c ∧
        TransGen draft.cells.Feeds c c) := by
  rw [ends_recompute]
  have unmoved : draft.cells.Unmoved draft.cells := ⟨keyed.steady, fun _ _ => Iff.rfl⟩
  refine (surveys_cascade registered _ _ draft unmoved (nodup_formulaNames draft.cells)).mono
    (fun _ _ done c path => ?_) (fun fault _ failed => ?_)
  · exact (done.2 a c (List.mem_singleton_self a.name) held path).2
  · obtain ⟨s, c, member, formula, path, same, circle⟩ := failed
    cases Address.name_injective (List.mem_singleton.1 member)
    exact ⟨c, same, path, circle (keyed.mem_formulaNames.2 (Feeds.hasFormula held path))⟩

end

end Worksheet
