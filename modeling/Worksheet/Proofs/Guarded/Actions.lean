import Worksheet.Proofs.Guarded.Formulas
import Worksheet.Proofs.Sheet.History

/-! Guarded actions. On cells with proper records a guarded action does what the plain one does: every
formula that is evaluated stands in a cell where it is well-formed. -/

namespace Worksheet.Guarded

open Cells

abbrev Action := EStateM Stop Draft

def lift {α : Type} (action : Worksheet.Action α) : Action α := fun draft =>
  match action draft with
  | .ok x next => .ok x next
  | .error fault next => .error (.fault fault) next

def check {α : Type} : Except Stop α → Action α
  | .ok x => pure x
  | .error stop => throw stop

/-! The guarded operations. -/

mutual

def evaluate (base : Address) : Formula → Action Float
  | .number x => pure x
  | .reference r => do
      match ← check (target base r) with
      | none => throw (.fault (.formula (.readOutside base)))
      | some place =>
          modify fun draft => draft.link base place
          let draft ← get
          return draft.cells.valueAt place
  | .apply operator operands => do
      let values ← evaluateAll base operands
      match operator.value? values with
      | some x => return x
      | none => throw (.site (.value operator values.length))

def evaluateAll (base : Address) : List Formula → Action (List Float)
  | [] => pure []
  | x :: xs => do
      let first ← evaluate base x
      let rest ← evaluateAll base xs
      return first :: rest

end

def settle (a : Address) : Action Unit := do
  let draft ← get
  match draft.cells.content? a with
  | some content =>
      let value ← evaluate a content.formula
      modify fun draft => draft.setValue a value
  | none => modify fun draft => draft.setValue a 0

def visit : Nat → List String → String → Action Unit
  | 0, _, name => lift (pass name)
  | count + 1, waiting, name =>
      if name ∈ waiting then do
        let draft ← get
        match draft.cells.formulaAt? name with
        | none => pure ()
        | some a =>
            settle a
            let draft ← get
            (draft.cells.readers a).toList.forM (visit count (waiting.erase name))
      else lift (pass name)

def recompute (todo : List String) : Action Unit := do
  let draft ← get
  todo.forM (visit draft.cells.formulaNames.length draft.cells.formulaNames)

/-- The draft when the cells that `formula` in `base` reads have been told that it no longer does. -/
def unlinkAll (draft : Draft) (base : Address) (formula : Formula) : Except Stop Draft := do
  let read ← targets base formula.references
  return read.foldl (fun draft place => draft.unlink base place) draft

def install (a : Address) (formula : Formula) : Action Unit := do
  let text ← check (render a formula)
  let draft ← get
  let changed := draft.setContent a ⟨formula, text⟩
  match draft.cells.content? a with
  | some old => set (← check (unlinkAll changed a old.formula))
  | none => set changed
  recompute [a.name]

def remove (a : Address) : Action Unit := do
  let draft ← get
  match draft.cells.content? a with
  | none => pure ()
  | some content =>
      let unlinked ← check (unlinkAll draft a content.formula)
      set (unlinked.drop a)
      recompute (draft.cells.readers a).toList

def named (text : String) : Action Address := do
  match ← check (address text.toList) with
  | some a => return a
  | none => throw (.fault (.badName text))

def enter (cell text : String) : Action Unit := do
  let a ← named cell
  let formula ← check (read a text)
  install a formula

def erase (cell : String) : Action Unit := do
  match ← check (address cell.toList) with
  | some a => remove a
  | none => pure ()

def transfer (dest source : String) : Action Unit := do
  let a ← named dest
  let b ← named source
  let draft ← get
  match draft.cells.content? b with
  | none => remove a
  | some content =>
      let text ← check (render a content.formula)
      let formula ← check (read a text)
      install a formula

/-! What they do. -/

/-- From a draft on a guarded action does what the plain one does, and when that ends well, then so. -/
structure Follows {α : Type} (guarded : Action α) (action : Worksheet.Action α) (draft : Draft)
    (done : α → Draft → Prop) : Prop where
  same : guarded draft = lift action draft
  ends : Ends action draft done (fun _ _ => True)

section

variable {α β : Type} {draft : Draft} {done : α → Draft → Prop}

theorem follows_pure {x : α} (fact : done x draft) : Follows (pure x) (pure x) draft done := ⟨rfl, fact⟩

theorem follows_throw (fault : Fault) : Follows (throw (.fault fault)) (throw fault) draft done :=
  ⟨rfl, trivial⟩

theorem follows_bind {guarded : Action β} {action : Worksheet.Action β} {next : β → Action α}
    {next' : β → Worksheet.Action α} {mid : β → Draft → Prop} (first : Follows guarded action draft mid)
    (second : ∀ x after, mid x after → Follows (next x) (next' x) after done) :
    Follows (guarded >>= next) (action >>= next') draft done := by
  have both := first.ends
  have same := first.same
  unfold lift at same
  constructor
  · change EStateM.bind guarded next draft = lift (EStateM.bind action next') draft
    unfold lift EStateM.bind
    unfold Ends at both
    rw [same]
    cases result : action draft with
    | ok x after =>
      rw [result] at both
      exact (second x after both).same
    | error fault after => rfl
  · rw [ends_bind]
    exact both.mono (fun x after fact => (second x after fact).ends) (fun _ _ _ => trivial)

theorem follows_get_bind {next : Draft → Action α} {next' : Draft → Worksheet.Action α}
    (second : Follows (next draft) (next' draft) draft done) :
    Follows (get >>= next) (get >>= next') draft done := ⟨second.same, second.ends⟩

theorem follows_set_bind {next : Action α} {next' : Worksheet.Action α} {after : Draft}
    (second : Follows next next' after done) :
    Follows (set after >>= fun _ => next) (set after >>= fun _ => next') draft done :=
  ⟨second.same, second.ends⟩

theorem follows_check_bind {result : Except Stop β} {x : β} (passed : result = .ok x)
    {next : β → Action α} {action : Worksheet.Action α} (second : Follows (next x) action draft done) :
    Follows (check result >>= next) action draft done := by
  subst passed
  exact ⟨second.same, second.ends⟩

end

section

variable {base : Address} {draft : Draft}

theorem evaluateAll_follows {operands : List Formula}
    (each : ∀ x ∈ operands, ∀ draft,
      Follows (evaluate base x) (Worksheet.evaluate base x) draft (fun _ _ => True)) (draft : Draft) :
    Follows (evaluateAll base operands) (Worksheet.evaluateAll base operands) draft
      (fun values _ => values.length = operands.length) := by
  induction operands generalizing draft with
  | nil =>
    rw [evaluateAll, Worksheet.evaluateAll]
    exact follows_pure rfl
  | cons x xs ih =>
    rw [evaluateAll, Worksheet.evaluateAll]
    refine follows_bind (each x List.mem_cons_self draft) fun value mid _ => ?_
    refine follows_bind (ih (fun y member => each y (List.mem_cons_of_mem x member)) mid) fun values last count => ?_
    exact follows_pure (congrArg Nat.succ count)

theorem evaluate_follows {formula : Formula} (fine : formula.WellFormed base) (draft : Draft) :
    Follows (evaluate base formula) (Worksheet.evaluate base formula) draft (fun _ _ => True) := by
  induction fine generalizing draft with
  | number bits finite =>
    rw [evaluate, Worksheet.evaluate]
    exact follows_pure trivial
  | reference r place denotes nameable =>
    rw [evaluate, Worksheet.evaluate, target_eq base (Reference.short_of_resolve? denotes), denotes]
    exact ⟨rfl, trivial⟩
  | apply operator operands takes each ih =>
    rw [evaluate, Worksheet.evaluate]
    refine follows_bind (evaluateAll_follows ih draft) fun values last count => ?_
    rw [← count] at takes
    obtain ⟨v, result⟩ := Operator.value?_of_takes takes
    rw [result]
    exact follows_pure trivial

theorem settle_follows {a : Address} {formula : Formula} (proper : draft.cells.Proper)
    (held : draft.cells.formula? a = some formula) :
    Follows (settle a) (Worksheet.settle a) draft (fun _ next => next.cells.Proper) := by
  obtain ⟨content, inner, _⟩ := formula?_eq_some_iff.1 held
  have followed : Follows (settle a) (Worksheet.settle a) draft (fun _ _ => True) := by
    unfold settle Worksheet.settle
    refine follows_get_bind ?_
    rw [inner]
    exact follows_bind (evaluate_follows (proper.written_record inner).wellFormed draft)
      fun value mid _ => ⟨rfl, trivial⟩
  exact ⟨followed.same, (settle_ends proper held).mono (fun _ _ result => result.1)
    (fun _ _ _ => trivial)⟩

theorem forM_follows {guarded : String → Action Unit} {action : String → Worksheet.Action Unit}
    (each : ∀ name draft, draft.cells.Proper →
      Follows (guarded name) (action name) draft (fun _ next => next.cells.Proper))
    (todo : List String) {draft : Draft} (proper : draft.cells.Proper) :
    Follows (todo.forM guarded) (todo.forM action) draft (fun _ next => next.cells.Proper) := by
  induction todo generalizing draft with
  | nil => exact follows_pure proper
  | cons name rest ih =>
    change Follows (guarded name >>= fun _ => rest.forM guarded)
      (action name >>= fun _ => rest.forM action) draft _
    exact follows_bind (each name draft proper) fun _ mid proper => ih proper

theorem pass_follows (name : String) {draft : Draft} (proper : draft.cells.Proper) :
    Follows (lift (pass name)) (pass name) draft (fun _ next => next.cells.Proper) := by
  refine ⟨rfl, ?_⟩
  unfold pass
  rw [ends_bind, ends_get]
  split
  · exact trivial
  · exact proper

theorem visit_follows (count : Nat) (waiting : List String) (name : String) {draft : Draft}
    (proper : draft.cells.Proper) :
    Follows (visit count waiting name) (Worksheet.visit count waiting name) draft
      (fun _ next => next.cells.Proper) := by
  -- Within a cascade the cells are not at rest. They are proper throughout, and the checks need no more.
  induction count generalizing waiting name draft with
  | zero => exact pass_follows name proper
  | succ count ih =>
    unfold visit Worksheet.visit
    split
    · refine follows_get_bind ?_
      cases found : draft.cells.formulaAt? name with
      | none => exact follows_pure proper
      | some a =>
        obtain ⟨_, formula, held⟩ := proper.formulaAt?_eq_some.1 found
        refine follows_bind (settle_follows proper held) fun _ mid proper => follows_get_bind ?_
        exact forM_follows (fun other _ fine => ih (waiting.erase name) other fine) _ proper
    · exact pass_follows name proper

theorem recompute_follows (todo : List String) {draft : Draft} (proper : draft.cells.Proper) :
    Follows (recompute todo) (Worksheet.recompute todo) draft (fun _ _ => True) := by
  have followed := forM_follows
    (fun name _ fine => visit_follows draft.cells.formulaNames.length draft.cells.formulaNames name fine)
    todo proper
  exact ⟨followed.same, ends_of_fact trivial⟩

/-! The operations start from cells at rest. -/

theorem unlinkAll_eq {home : Address} {formula : Formula} (fine : formula.WellFormed home)
    (draft : Draft) (base : Address) :
    unlinkAll draft base formula = .ok (draft.unlinkAll base formula) := by
  unfold unlinkAll
  rw [targets_eq base fine.short]
  rfl

theorem install_follows {a : Address} {formula : Formula} {draft : Draft}
    (intact : draft.cells.Intact) (fine : formula.WellFormed a) :
    Follows (install a formula) (Worksheet.install a formula) draft (fun _ _ => True) := by
  obtain ⟨text, rendered⟩ := fine.render_exists
  have written : Content.Written ⟨formula, text⟩ a := ⟨fine, rendered⟩
  unfold install Worksheet.install
  rw [rendered]
  refine follows_check_bind ((render_eq fine a).trans (congrArg faults rendered))
    (follows_get_bind ?_)
  cases held : draft.cells.content? a with
  | none =>
    exact follows_set_bind (recompute_follows [a.name] (changed_setContent intact written held).proper)
  | some old =>
    refine follows_check_bind (unlinkAll_eq (intact.proper.written_record held).wellFormed _ a)
      (follows_set_bind ?_)
    exact recompute_follows [a.name] (changed_unlinkAll intact written held).proper

theorem remove_follows (a : Address) {draft : Draft} (intact : draft.cells.Intact) :
    Follows (remove a) (Worksheet.remove a) draft (fun _ _ => True) := by
  unfold remove Worksheet.remove
  refine follows_get_bind ?_
  cases held : draft.cells.content? a with
  | none => exact follows_pure trivial
  | some content =>
    refine follows_check_bind (unlinkAll_eq (intact.proper.written_record held).wellFormed draft a)
      (follows_set_bind ?_)
    exact recompute_follows _ (changed_drop intact held).proper

theorem named_follows (text : String) (draft : Draft) :
    Follows (named text) (Sheet.named text) draft (fun _ next => next = draft) := by
  unfold named Sheet.named Address.ofName?
  rw [address_eq]
  cases Address.ofChars? text.toList with
  | none => exact follows_throw (.badName text)
  | some a => exact follows_pure rfl

theorem parsed_follows (base : Address) (text : String) (draft : Draft) :
    Follows (check (read base text)) (Sheet.parsed base text) draft
      (fun formula next => next = draft ∧ formula.WellFormed base) := by
  unfold Sheet.parsed
  rw [read_eq]
  cases parsed : Formula.read base text with
  | error cause => exact follows_throw (.formula cause)
  | ok formula => exact follows_pure ⟨rfl, Formula.wellFormed_of_read parsed⟩

section

variable {draft : Draft} (intact : draft.cells.Intact)

include intact

theorem enter_follows (cell text : String) :
    Follows (enter cell text) (Sheet.enter cell text) draft (fun _ _ => True) := by
  refine follows_bind (named_follows cell draft) fun a next same => ?_
  subst same
  refine follows_bind (parsed_follows a text next) fun formula last both => ?_
  obtain ⟨rfl, fine⟩ := both
  exact install_follows intact fine

theorem erase_follows (cell : String) :
    Follows (erase cell) (Sheet.erase cell) draft (fun _ _ => True) := by
  unfold erase Sheet.erase Address.ofName?
  rw [address_eq]
  cases Address.ofChars? cell.toList with
  | none => exact follows_pure trivial
  | some a => exact remove_follows a intact

theorem transfer_follows (dest source : String) :
    Follows (transfer dest source) (Sheet.transfer dest source) draft (fun _ _ => True) := by
  refine follows_bind (named_follows dest draft) fun a next same => ?_
  subst same
  refine follows_bind (named_follows source next) fun b last same => ?_
  subst same
  refine follows_get_bind ?_
  cases held : last.cells.content? b with
  | none => exact remove_follows a intact
  | some content =>
    simp only
    rw [render_eq (intact.proper.written_record held).wellFormed]
    cases content.formula.render a with
    | error fault => exact follows_throw fault
    | ok text =>
      refine follows_check_bind rfl (follows_bind (parsed_follows a text last) fun formula next both => ?_)
      obtain ⟨rfl, fine⟩ := both
      exact install_follows intact fine

end

end

end Worksheet.Guarded
