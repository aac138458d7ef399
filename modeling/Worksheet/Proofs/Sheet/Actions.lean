import Mathlib.Tactic
import Worksheet.Sheet.Cascade

/-! Reasoning about actions: what holds of the draft at their two ends, and what they keep. What is
kept when one cell is settled is kept by every cascade. -/

namespace Worksheet

/-- What holds after an action that starts in `draft`: `done` of its result when it succeeds, and
`failed` of its fault when it does not. -/
def Ends {α : Type} (action : Action α) (draft : Draft) (done : α → Draft → Prop)
    (failed : Fault → Draft → Prop) : Prop :=
  match action draft with
  | .ok x next => done x next
  | .error fault next => failed fault next

section

variable {α β : Type} {draft : Draft} {done : α → Draft → Prop} {failed : Fault → Draft → Prop}

theorem ends_pure {x : α} : Ends (pure x) draft done failed ↔ done x draft := Iff.rfl

theorem ends_throw {fault : Fault} :
    Ends (throw fault : Action α) draft done failed ↔ failed fault draft := Iff.rfl

theorem ends_of_fact {action : Action α} {fact : Prop} (holds : fact) :
    Ends action draft (fun _ _ => fact) (fun _ _ => True) := by
  unfold Ends
  split
  · exact holds
  · exact trivial

theorem ends_bind {action : Action β} {next : β → Action α} :
    Ends (action >>= next) draft done failed ↔
      Ends action draft (fun x mid => Ends (next x) mid done failed) failed := by
  unfold Ends
  change (match EStateM.bind action next draft with
    | .ok x last => done x last
    | .error fault last => failed fault last) ↔ _
  unfold EStateM.bind
  cases action draft with
  | ok x mid => exact Iff.rfl
  | error fault mid => exact Iff.rfl

theorem get_bind (next : Draft → Action α) (draft : Draft) : (get >>= next) draft = next draft draft := rfl

theorem bind_of_ok {action : Action β} {next : β → Action α} {x : β} {mid : Draft}
    (taken : action draft = .ok x mid) : (action >>= next) draft = next x mid := by
  change EStateM.bind action next draft = _
  unfold EStateM.bind
  rw [taken]

theorem bind_of_error {action : Action β} {next : β → Action α} {fault : Fault} {mid : Draft}
    (failed : action draft = .error fault mid) : (action >>= next) draft = .error fault mid := by
  change EStateM.bind action next draft = _
  unfold EStateM.bind
  rw [failed]

theorem ends_get {done : Draft → Draft → Prop} :
    Ends get draft done failed ↔ done draft draft := Iff.rfl

theorem ends_set {done : PUnit → Draft → Prop} {next : Draft} :
    Ends (set next) draft done failed ↔ done ⟨⟩ next := Iff.rfl

theorem ends_modify {done : PUnit → Draft → Prop} {f : Draft → Draft} :
    Ends (modify f) draft done failed ↔ done ⟨⟩ (f draft) := Iff.rfl

theorem ends_self {action : Action α} :
    Ends action draft (fun x next => action draft = .ok x next)
      (fun fault next => action draft = .error fault next) := by
  unfold Ends
  split
  next x next same => exact same
  next fault next same => exact same

theorem Ends.mono {action : Action α} {done' : α → Draft → Prop}
    {failed' : Fault → Draft → Prop} (ends : Ends action draft done failed)
    (onDone : ∀ x next, done x next → done' x next)
    (onFailed : ∀ fault next, failed fault next → failed' fault next) :
    Ends action draft done' failed' := by
  unfold Ends at ends ⊢
  cases same : action draft with
  | ok x next =>
    rw [same] at ends
    exact onDone x next ends
  | error fault next =>
    rw [same] at ends
    exact onFailed fault next ends

theorem Ends.and {action : Action α} {done' : α → Draft → Prop} {failed' : Fault → Draft → Prop}
    (one : Ends action draft done failed) (other : Ends action draft done' failed') :
    Ends action draft (fun x next => done x next ∧ done' x next)
      (fun fault next => failed fault next ∧ failed' fault next) := by
  unfold Ends at one other ⊢
  cases same : action draft with
  | ok x next =>
    rw [same] at one other
    exact ⟨one, other⟩
  | error fault next =>
    rw [same] at one other
    exact ⟨one, other⟩

end

def Keeps {α : Type} (holds : Draft → Prop) (action : Action α) : Prop :=
  ∀ draft, holds draft → Ends action draft (fun _ => holds) (fun _ => holds)

section

variable {α β : Type} {holds : Draft → Prop}

theorem keeps_pure (x : α) : Keeps holds (pure x) := fun _ start => start

theorem keeps_throw (fault : Fault) : Keeps holds (throw fault : Action α) := fun _ start => start

theorem keeps_bind {action : Action β} {next : β → Action α} (first : Keeps holds action)
    (second : ∀ x, Keeps holds (next x)) : Keeps holds (action >>= next) := by
  intro draft start
  rw [ends_bind]
  exact (first draft start).mono (fun x mid kept => second x mid kept) (fun _ _ kept => kept)

theorem keeps_get_bind {next : Draft → Action α}
    (second : ∀ draft, holds draft → Ends (next draft) draft (fun _ => holds) (fun _ => holds)) :
    Keeps holds (get >>= next) := by
  intro draft start
  rw [ends_bind, ends_get]
  exact second draft start

theorem keeps_modify {f : Draft → Draft} (step : ∀ draft, holds draft → holds (f draft)) :
    Keeps holds (modify f) := step

mutual

theorem evaluate_keeps {base : Address}
    (link : ∀ draft target, holds draft → holds (draft.link base target)) :
    ∀ formula, Keeps holds (evaluate base formula)
  | .number x => by
      rw [evaluate]
      exact keeps_pure x
  | .reference r => by
      rw [evaluate]
      split
      · exact keeps_throw _
      next target _ =>
        refine keeps_bind (keeps_modify fun draft start => link draft target start) fun _ => ?_
        exact keeps_get_bind fun draft start => start
  | .apply operator operands => by
      rw [evaluate]
      refine keeps_bind (evaluateAll_keeps link operands) fun values => ?_
      split
      · exact keeps_pure _
      · exact keeps_throw _

theorem evaluateAll_keeps {base : Address}
    (link : ∀ draft target, holds draft → holds (draft.link base target)) :
    ∀ operands, Keeps holds (evaluateAll base operands)
  | [] => by
      rw [evaluateAll]
      exact keeps_pure []
  | x :: xs => by
      rw [evaluateAll]
      refine keeps_bind (evaluate_keeps link x) fun first => ?_
      exact keeps_bind (evaluateAll_keeps link xs) fun rest => keeps_pure _

end

theorem settle_keeps (a : Address)
    (link : ∀ draft target, holds draft → holds (draft.link a target))
    (setValue : ∀ draft value, holds draft → holds (draft.setValue a value)) :
    Keeps holds (settle a) := by
  unfold settle
  refine keeps_get_bind fun draft start => ?_
  split
  next content _ =>
    exact keeps_bind (evaluate_keeps link content.formula)
      (fun value => keeps_modify fun draft kept => setValue draft value kept) draft start
  next => exact setValue draft 0 start

end

/-- To prove something of all cascades, prove it of the visit of a cell that is not waiting, of the
visit of a waiting cell from the cascades with one cell less waiting, and along the list. -/
theorem cascade_induction (visited : List String → String → Prop)
    (cascaded : List String → List String → Prop)
    (passed : ∀ waiting name, name ∉ waiting → visited waiting name)
    (waits : ∀ waiting name, name ∈ waiting →
      (∀ todo, cascaded (waiting.erase name) todo) → visited waiting name)
    (nil : ∀ waiting, cascaded waiting [])
    (cons : ∀ waiting name rest, visited waiting name → cascaded waiting rest →
      cascaded waiting (name :: rest)) :
    ∀ waiting todo, cascaded waiting todo := by
  intro waiting
  -- the induction is on the number of waiting cells, and for each number along the list
  induction size : waiting.length using Nat.strong_induction_on generalizing waiting with
  | _ n ih =>
    have visits : ∀ name, visited waiting name := by
      intro name
      by_cases member : name ∈ waiting
      · refine waits waiting name member fun todo => ih _ ?_ (waiting.erase name) rfl todo
        have positive := List.length_pos_of_mem member
        rw [List.length_erase_of_mem member]
        omega
      · exact passed waiting name member
    intro todo
    induction todo with
    | nil => exact nil waiting
    | cons name rest tail => exact cons waiting name rest (visits name) tail

theorem ends_visit_waiting {waiting : List String} {name : String} (member : name ∈ waiting)
    {draft : Draft} {done : PUnit → Draft → Prop} {failed : Fault → Draft → Prop} :
    Ends (visit waiting.length waiting name) draft done failed ↔
      match draft.cells.formulaAt? name with
      | none => done ⟨⟩ draft
      | some a => Ends (settle a) draft (fun _ mid =>
          Ends (cascade (waiting.erase name) (mid.cells.readers a).toList) mid done failed) failed := by
  rw [visit_waiting member, ends_bind, ends_get]
  cases draft.cells.formulaAt? name with
  | none => exact ends_pure
  | some a =>
    simp only
    rw [ends_bind]
    exact Iff.rfl

theorem ends_visit_passed {waiting : List String} {name : String} (absent : name ∉ waiting)
    {draft : Draft} {done : PUnit → Draft → Prop} {failed : Fault → Draft → Prop} :
    Ends (visit waiting.length waiting name) draft done failed ↔
      match draft.cells.formulaAt? name with
      | none => done ⟨⟩ draft
      | some _ => failed (.circular name) draft := by
  rw [visit_passed absent]
  unfold pass
  rw [ends_bind, ends_get]
  cases draft.cells.formulaAt? name with
  | none => exact ends_pure
  | some a => exact ends_throw

theorem ends_cascade_cons {waiting rest : List String} {name : String} {draft : Draft}
    {done : PUnit → Draft → Prop} {failed : Fault → Draft → Prop} :
    Ends (cascade waiting (name :: rest)) draft done failed ↔
      Ends (visit waiting.length waiting name) draft
        (fun _ mid => Ends (cascade waiting rest) mid done failed) failed := by
  rw [cascade_cons, ends_bind]

theorem ends_cascade_singleton {waiting : List String} {name : String} {draft : Draft}
    {done : PUnit → Draft → Prop} {failed : Fault → Draft → Prop} :
    Ends (cascade waiting [name]) draft done failed ↔
      Ends (visit waiting.length waiting name) draft done failed := by
  rw [ends_cascade_cons]
  exact Iff.rfl

theorem ends_recompute {todo : List String} {draft : Draft} {done : PUnit → Draft → Prop}
    {failed : Fault → Draft → Prop} :
    Ends (recompute todo) draft done failed ↔
      Ends (cascade draft.cells.formulaNames todo) draft done failed := by
  unfold recompute
  rw [ends_bind, ends_get]

theorem cascade_keeps {holds : Draft → Prop}
    (step : ∀ name a draft, draft.cells.formulaAt? name = some a → holds draft →
      Ends (settle a) draft (fun _ => holds) (fun _ => holds)) :
    ∀ waiting todo, Keeps holds (cascade waiting todo) := by
  refine cascade_induction
    (fun waiting name => Keeps holds (visit waiting.length waiting name))
    (fun waiting todo => Keeps holds (cascade waiting todo)) ?_ ?_ ?_ ?_
  · intro waiting name absent draft start
    rw [ends_visit_passed absent]
    split
    · exact start
    · exact start
  · intro waiting name member inner draft start
    rw [ends_visit_waiting member]
    split
    · exact start
    next a found =>
      exact (step name a draft found start).mono (fun _ mid kept => inner _ mid kept)
        (fun _ _ kept => kept)
  · intro waiting draft start
    exact start
  · intro waiting name rest first second draft start
    rw [ends_cascade_cons]
    exact (first draft start).mono (fun _ mid kept => second mid kept) (fun _ _ kept => kept)

end Worksheet
