import Worksheet.Proofs.Sheet.Feeding

/-! Going down through readers. A descent looks at one name after the other, computes a formula cell when it comes
to one and goes on with the cells that are told as its readers; it knows the path that it came by and counts
nothing. It ends whatever the cells are told, since no formula changes on the way and no path comes twice to a cell,
and it ends as a recomputation does. -/

namespace Worksheet

open Cells Relation

/-- The names to be looked at next, and the cells that led to them, the last one first, each with the names that
were left when it was entered. -/
structure Descent where
  todo : List String
  path : List (Address × List String)

namespace Descent

def start (a : Address) : Descent := ⟨[a.name], []⟩

def finished : Descent := ⟨[], []⟩

def cells (descent : Descent) : List Address := descent.path.map Prod.fst

def step : Descent → Action Descent
  | ⟨[], []⟩ => pure finished
  | ⟨[], (_, rest) :: path⟩ => pure ⟨rest, path⟩
  | ⟨name :: rest, path⟩ =>
      if name ∈ (path.map Prod.fst).map Address.name then throw (.circular name)
      else do
        let draft ← get
        match draft.cells.formulaAt? name with
        | none => pure ⟨rest, path⟩
        | some a =>
            settle a
            let draft ← get
            pure ⟨(draft.cells.readers a).toList, (a, rest) :: path⟩

def steps : Nat → Descent → Action Descent
  | 0, descent => pure descent
  | n + 1, descent => do
      let next ← step descent
      steps n next

def Enters (descent : Descent) (cells : Cells) (c : Address) : Prop :=
  ∃ name rest, descent.todo = name :: rest ∧ name ∉ descent.cells.map Address.name ∧
    cells.formulaAt? name = some c

inductive Stops (before : Cells) : Fault → Prop
  | circle {c : Address} (held : before.HasFormula c) : Stops before (.circular c.name)
  | outside {c : Address} {formula : Formula} {r : Reference} (held : before.formula? c = some formula)
      (member : r ∈ formula.references) (nowhere : r.resolve? c = none) :
      Stops before (.formula (.readOutside c))

/-- On the way from `before`: the formulas are the same, and the path comes to formula cells only, and to none of
them twice. -/
structure Underway (before : Cells) (path : List Address) (after : Cells) : Prop where
  steady : before.Steady after
  simple : path.Nodup
  held : ∀ p ∈ path, before.HasFormula p

section

variable {before : Cells} {draft : Draft} {descent next : Descent} {a c : Address} {name : String}
  {rest : List String} {path : List (Address × List String)} {mid : Draft}

theorem settle_steady (steady : before.Steady draft.cells) (held : before.HasFormula a) :
    Ends (settle a) draft (fun _ next => before.Steady next.cells)
      (fun fault _ => Stops before fault) := by
  obtain ⟨formula, held⟩ := held
  have here := (steady.formula a).trans held
  refine ((settle_keeps_steady before a draft steady).and (settle_outcome here)).mono
    (fun _ _ result => result.1) (fun fault _ failed => ?_)
  obtain ⟨rfl, r, member, nowhere⟩ := (steady.keyed.applied here).valueIn_error failed.2
  exact .outside held member nowhere

theorem Enters.fresh (underway : Underway before descent.cells draft.cells)
    (enters : Enters descent draft.cells c) : before.HasFormula c ∧ c ∉ descent.cells := by
  obtain ⟨name, rest, _, fresh, found⟩ := enters
  obtain ⟨same, held⟩ := underway.steady.formulaAt?_eq_some.1 found
  refine ⟨held, fun member => fresh ?_⟩
  rw [← same]
  exact List.mem_map_of_mem member

theorem step_underway (underway : Underway before descent.cells draft.cells) :
    Ends (step descent) draft (fun next last => Underway before next.cells last.cells)
      (fun fault _ => Stops before fault) := by
  obtain ⟨steady, simple, held⟩ := underway
  match descent with
  | ⟨[], []⟩ => exact ⟨steady, List.nodup_nil, List.forall_mem_nil _⟩
  | ⟨[], (_, rest) :: path⟩ =>
    exact ⟨steady, (List.nodup_cons.1 simple).2, (List.forall_mem_cons.1 held).2⟩
  | ⟨name :: rest, path⟩ =>
    rw [step]
    split
    next met =>
      obtain ⟨p, member, rfl⟩ := List.mem_map.1 met
      exact .circle (held p member)
    next fresh =>
      rw [ends_bind, ends_get]
      split
      next => exact ⟨steady, simple, held⟩
      next a found =>
        obtain ⟨formula, off⟩ :=
          Enters.fresh ⟨steady, simple, held⟩ ⟨name, rest, rfl, fresh, found⟩
        rw [ends_bind]
        refine (settle_steady steady formula).mono (fun _ mid settled => ?_) (fun _ _ stops => stops)
        rw [ends_bind, ends_get, ends_pure]
        exact ⟨settled, List.nodup_cons.2 ⟨off, simple⟩, List.forall_mem_cons.2 ⟨formula, held⟩⟩

theorem steps_underway (n : Nat) (underway : Underway before descent.cells draft.cells) :
    Ends (steps n descent) draft (fun next last => Underway before next.cells last.cells)
      (fun fault _ => Stops before fault) := by
  induction n generalizing descent draft with
  | zero => exact underway
  | succ n ih =>
    rw [steps, ends_bind]
    exact (step_underway underway).mono (fun _ _ onward => ih onward) (fun _ _ stops => stops)

theorem Underway.length_le (keyed : before.Keyed) {cells : List Address} {after : Cells}
    (underway : Underway before cells after) : cells.length ≤ before.formulaNames.length := by
  have simple : (cells.map Address.name).Nodup := underway.simple.map Address.name_injective
  have inside : cells.map Address.name ⊆ before.formulaNames := by
    intro name listed
    obtain ⟨p, member, rfl⟩ := List.mem_map.1 listed
    exact keyed.mem_formulaNames.2 (underway.held p member)
  calc cells.length = (cells.map Address.name).length := by rw [List.length_map]
    _ ≤ before.formulaNames.length := (List.subperm_of_subset simple inside).length_le

/-! A descent and the cascade that it goes through, name by name. -/

theorem steps_succ (taken : step descent draft = .ok next mid) (n : Nat) :
    steps (n + 1) descent draft = steps n next mid := bind_of_ok taken

theorem steps_succ_error {fault : Fault} (failed : step descent draft = .error fault mid) (n : Nat) :
    steps (n + 1) descent draft = .error fault mid := bind_of_error failed

theorem steps_add {m : Nat} (reached : steps m descent draft = .ok next mid) (n : Nat) :
    steps (m + n) descent draft = steps n next mid := by
  induction m generalizing descent draft with
  | zero =>
    cases reached
    rw [Nat.zero_add]
  | succ m ih =>
    rw [Nat.add_right_comm]
    cases taken : step descent draft with
    | error fault last =>
      rw [steps_succ_error taken] at reached
      cases reached
    | ok onward last =>
      rw [steps_succ taken] at reached ⊢
      exact ih reached

theorem step_met (met : name ∈ (path.map Prod.fst).map Address.name) :
    step ⟨name :: rest, path⟩ draft = .error (.circular name) draft := by
  rw [step, if_pos met]
  rfl

theorem step_passed (fresh : name ∉ (path.map Prod.fst).map Address.name)
    (absent : draft.cells.formulaAt? name = none) :
    step ⟨name :: rest, path⟩ draft = .ok ⟨rest, path⟩ draft := by
  rw [step, if_neg fresh, get_bind, absent]
  rfl

theorem step_entered (fresh : name ∉ (path.map Prod.fst).map Address.name)
    (found : draft.cells.formulaAt? name = some a) (settled : settle a draft = .ok ⟨⟩ mid) :
    step ⟨name :: rest, path⟩ draft = .ok ⟨(mid.cells.readers a).toList, (a, rest) :: path⟩ mid := by
  rw [step, if_neg fresh, get_bind, found]
  exact bind_of_ok settled

theorem step_stopped {fault : Fault} (fresh : name ∉ (path.map Prod.fst).map Address.name)
    (found : draft.cells.formulaAt? name = some a) (failed : settle a draft = .error fault mid) :
    step ⟨name :: rest, path⟩ draft = .error fault mid := by
  rw [step, if_neg fresh, get_bind, found]
  exact bind_of_error failed

/-- The formula cells that are not on the path are waiting. -/
structure Divides (before : Cells) (path : List Address) (waiting : List String) : Prop where
  nodup : waiting.Nodup
  waits : ∀ p, p.name ∈ waiting ↔ before.HasFormula p ∧ p ∉ path

theorem Divides.enter {path : List Address} {waiting : List String} (divides : Divides before path waiting)
    (a : Address) : Divides before (a :: path) (waiting.erase a.name) := by
  refine ⟨divides.nodup.erase a.name, fun p => ?_⟩
  rw [divides.nodup.mem_erase_iff, divides.waits, List.mem_cons, not_or, Ne, Address.name_injective.eq_iff]
  tauto

/-- A descent that begins with the names of `todo` gets behind them if the action succeeds, and fails as the action
does. -/
def Mirrors (before : Cells) (waiting todo : List String) (action : Action Unit) : Prop :=
  ∀ (rest : List String) (path : List (Address × List String)) (draft : Draft),
    Underway before (path.map Prod.fst) draft.cells → Divides before (path.map Prod.fst) waiting →
    Ends action draft
      (fun _ last => before.Steady last.cells ∧
        ∃ n, steps n ⟨todo ++ rest, path⟩ draft = .ok ⟨rest, path⟩ last)
      (fun fault last => ∃ n, steps n ⟨todo ++ rest, path⟩ draft = .error fault last)

theorem mirrors_visit_passed {waiting : List String} (absent : name ∉ waiting) :
    Mirrors before waiting [name] (visit waiting.length waiting name) := by
  intro rest path draft underway divides
  rw [ends_visit_passed absent]
  split
  next empty =>
    have fresh : name ∉ (path.map Prod.fst).map Address.name := by
      intro met
      obtain ⟨p, member, same⟩ := List.mem_map.1 met
      have found := underway.steady.formulaAt?_eq_some.2 ⟨same, underway.held p member⟩
      cases empty.symm.trans found
    exact ⟨underway.steady, 1, steps_succ (step_passed fresh empty) 0⟩
  next a found =>
    obtain ⟨rfl, held⟩ := underway.steady.formulaAt?_eq_some.1 found
    have member : a ∈ path.map Prod.fst := by
      by_contra off
      exact absent ((divides.waits a).2 ⟨held, off⟩)
    exact ⟨1, steps_succ_error (step_met (List.mem_map_of_mem member)) 0⟩

theorem mirrors_visit_waiting {waiting : List String} (member : name ∈ waiting)
    (inner : ∀ todo, Mirrors before (waiting.erase name) todo (cascade (waiting.erase name) todo)) :
    Mirrors before waiting [name] (visit waiting.length waiting name) := by
  intro rest path draft underway divides
  have fresh : name ∉ (path.map Prod.fst).map Address.name := by
    intro met
    obtain ⟨p, on, rfl⟩ := List.mem_map.1 met
    exact ((divides.waits p).1 member).2 on
  rw [ends_visit_waiting member]
  split
  next empty => exact ⟨underway.steady, 1, steps_succ (step_passed fresh empty) 0⟩
  next a found =>
    obtain ⟨rfl, held⟩ := underway.steady.formulaAt?_eq_some.1 found
    have off := ((divides.waits a).1 member).2
    refine (ends_self.and (settle_steady underway.steady held)).mono (fun _ mid result => ?_)
      (fun fault last failed => ⟨1, steps_succ_error (step_stopped fresh found failed.1) 0⟩)
    obtain ⟨settled, steady⟩ := result
    have entered : step ⟨a.name :: rest, path⟩ draft =
        .ok ⟨(mid.cells.readers a).toList, (a, rest) :: path⟩ mid := step_entered fresh found settled
    have deeper : Underway before (((a, rest) :: path).map Prod.fst) mid.cells :=
      ⟨steady, List.nodup_cons.2 ⟨off, underway.simple⟩, List.forall_mem_cons.2 ⟨held, underway.held⟩⟩
    refine (inner _ [] _ mid deeper (divides.enter a)).mono (fun _ last done => ?_) (fun fault last failed => ?_)
    · obtain ⟨steady, n, reached⟩ := done
      rw [List.append_nil] at reached
      -- one step into the cell, the steps behind it, and one step out of it
      refine ⟨steady, n + 1 + 1, ?_⟩
      exact (steps_succ entered (n + 1)).trans (steps_add reached 1)
    · obtain ⟨n, failed⟩ := failed
      rw [List.append_nil] at failed
      exact ⟨n + 1, (steps_succ entered n).trans failed⟩

theorem mirrors_cascade_cons {waiting later : List String}
    (first : Mirrors before waiting [name] (visit waiting.length waiting name))
    (second : Mirrors before waiting later (cascade waiting later)) :
    Mirrors before waiting (name :: later) (cascade waiting (name :: later)) := by
  intro rest path draft underway divides
  rw [ends_cascade_cons]
  refine (first (later ++ rest) path draft underway divides).mono (fun _ mid done => ?_) (fun _ _ failed => failed)
  obtain ⟨steady, m, reached⟩ := done
  refine (second rest path mid ⟨steady, underway.simple, underway.held⟩ divides).mono
    (fun _ last done => ?_) (fun fault last failed => ?_)
  · obtain ⟨steady, n, onward⟩ := done
    exact ⟨steady, m + n, (steps_add reached n).trans onward⟩
  · obtain ⟨n, failed⟩ := failed
    exact ⟨m + n, (steps_add reached n).trans failed⟩

theorem mirrors_cascade (before : Cells) (waiting todo : List String) :
    Mirrors before waiting todo (cascade waiting todo) := by
  refine cascade_induction
    (fun waiting name => Mirrors before waiting [name] (visit waiting.length waiting name))
    (fun waiting todo => Mirrors before waiting todo (cascade waiting todo))
    (fun _ _ absent => mirrors_visit_passed absent)
    (fun _ _ member inner => mirrors_visit_waiting member inner) (fun waiting => ?_)
    (fun _ _ _ first second => mirrors_cascade_cons first second) waiting todo
  intro rest path draft underway _
  exact ⟨underway.steady, 0, rfl⟩

theorem recompute_descends (keyed : draft.cells.Keyed) (a : Address) :
    Ends (recompute [a.name]) draft (fun _ last => ∃ n, steps n (start a) draft = .ok finished last)
      (fun fault last => ∃ n, steps n (start a) draft = .error fault last) := by
  rw [ends_recompute]
  have divides : Divides draft.cells [] draft.cells.formulaNames := by
    refine ⟨nodup_formulaNames draft.cells, fun p => ?_⟩
    rw [keyed.mem_formulaNames, and_iff_left List.not_mem_nil]
    exact Iff.rfl
  have underway : Underway draft.cells [] draft.cells :=
    ⟨keyed.steady, List.nodup_nil, List.forall_mem_nil _⟩
  exact (mirrors_cascade draft.cells _ [a.name] [] [] draft underway divides).mono
    (fun _ _ done => done.2) (fun _ _ failed => failed)

end

end Descent

/-- Whatever readers the cells are told, a descent from a formula cell comes to its end, and the recomputation of the
cell ends there too. On the way every formula stays as it is, the path is one of formula cells without a repetition,
and each cell that is entered is a formula cell off the path. If each reference leads to a cell that is told
so already, the descent succeeds if no circle of formula cells is reached from its cell through readers, and else
fails with a cell of such a circle. -/
theorem Descent.comes_to_end {draft : Draft} {a : Address} (keyed : draft.cells.Keyed)
    (held : draft.cells.HasFormula a) :
    (∀ n, Ends (steps n (start a)) draft
      (fun descent next => Underway draft.cells descent.cells next.cells ∧
        descent.cells.length ≤ draft.cells.formulaNames.length ∧
        ∀ c, Enters descent next.cells c → draft.cells.HasFormula c ∧ c ∉ descent.cells)
      (fun fault _ => Stops draft.cells fault)) ∧
    Ends (recompute [a.name]) draft
      (fun _ last => (∃ n, steps n (start a) draft = .ok finished last) ∧
        (draft.cells.Registered →
          ¬ ∃ c, ReflTransGen draft.cells.Feeds a c ∧ TransGen draft.cells.Feeds c c))
      (fun fault last => (∃ n, steps n (start a) draft = .error fault last) ∧
        (draft.cells.Registered →
          ∃ c, fault = .circular c.name ∧ ReflTransGen draft.cells.Feeds a c ∧
            TransGen draft.cells.Feeds c c)) := by
  refine ⟨fun n => ?_, ?_⟩
  · have underway : Underway draft.cells (start a).cells draft.cells :=
      ⟨keyed.steady, List.nodup_nil, List.forall_mem_nil _⟩
    exact (steps_underway n underway).mono
      (fun _ _ onward => ⟨onward, onward.length_le keyed, fun c enters => enters.fresh onward⟩)
      (fun _ _ stops => stops)
  · by_cases registered : draft.cells.Registered
    · refine ((recompute_descends keyed a).and (recompute_surveys keyed registered held)).mono
        (fun _ last done => ⟨done.1, fun _ found => ?_⟩) (fun _ _ failed => ⟨failed.1, fun _ => failed.2⟩)
      obtain ⟨c, path, circle⟩ := found
      exact done.2 c path circle
    · exact (recompute_descends keyed a).mono (fun _ _ done => ⟨done, fun told => absurd told registered⟩)
        (fun _ _ failed => ⟨failed, fun told => absurd told registered⟩)

@[irreducible]
def Draft.mutualReaders (a b c : Address) (ahead back : Reference) : Draft :=
  let first := (Draft.start ∅).setContent a ⟨.reference ahead, b.name⟩
  let both := first.setContent b ⟨.reference back, a.name⟩
  ((both.link a b).link b a).link c a

section

variable {a b c p : Address} {ahead back : Reference}

theorem Draft.formula?_mutualReaders (p : Address) :
    (mutualReaders a b c ahead back).cells.formula? p =
      if b = p then some (.reference back) else if a = p then some (.reference ahead) else none := by
  have nothing : (Draft.start ∅).cells.content? p = none := by
    unfold Draft.start Cells.content?
    rw [Std.ExtTreeMap.getElem?_empty]
    rfl
  simp only [mutualReaders, Cells.formula?, content?_link, content?_setContent, nothing]
  split
  next => rfl
  next =>
    split
    next => rfl
    next => rfl

theorem Draft.keyed_mutualReaders : (mutualReaders a b c ahead back).cells.Keyed := by
  have empty : (Draft.start ∅).cells.Keyed := intact_empty.proper.keyed
  unfold mutualReaders
  refine link_keyed (link_keyed (link_keyed ?_ a b) b a) c a
  exact setContent_keyed (setContent_keyed empty (.reference ahead)) (.reference back)

theorem Draft.told_mutualReaders :
    b.name ∈ (mutualReaders a b c ahead back).cells.readers a ∧
      a.name ∈ (mutualReaders a b c ahead back).cells.readers b := by
  constructor
  · simp [mutualReaders, mem_readers_link]
  · simp [mutualReaders, mem_readers_link]

theorem Draft.registered_mutualReaders (there : ahead.resolve? a = some b) (home : back.resolve? b = some a) :
    (mutualReaders a b c ahead back).cells.Registered := by
  intro p formula held r member
  rw [formula?_mutualReaders] at held
  split at held
  next here =>
    cases held
    cases List.mem_singleton.1 member
    exact ⟨a, here ▸ home, here ▸ told_mutualReaders.1⟩
  next =>
    split at held
    next here =>
      cases held
      cases List.mem_singleton.1 member
      exact ⟨b, here ▸ there, here ▸ told_mutualReaders.2⟩
    next => cases held

theorem Draft.hasFormula_mutualReaders (among : p = a ∨ p = b) :
    (mutualReaders a b c ahead back).cells.HasFormula p := by
  unfold Cells.HasFormula
  rw [formula?_mutualReaders]
  rcases among with rfl | rfl
  · split
    next => exact ⟨_, rfl⟩
    next => exact ⟨_, if_pos rfl⟩
  · exact ⟨_, if_pos rfl⟩

theorem Draft.circle_mutualReaders : TransGen (mutualReaders a b c ahead back).cells.Feeds a a := by
  have down : (mutualReaders a b c ahead back).cells.Feeds a b :=
    ⟨told_mutualReaders.1, hasFormula_mutualReaders (.inr rfl)⟩
  have up : (mutualReaders a b c ahead back).cells.Feeds b a :=
    ⟨told_mutualReaders.2, hasFormula_mutualReaders (.inl rfl)⟩
  exact .tail (.single down) up

end

theorem Descent.comes_to_end_on_circle :
    ∃ draft, draft = Draft.mutualReaders .origin ⟨1, 0⟩ ⟨2, 0⟩ ⟨.relative 1, .relative 0⟩
        ⟨.relative (-1), .relative 0⟩ ∧
      Ends (recompute [Address.origin.name]) draft (fun _ _ => False)
        (fun fault last => (∃ n, steps n (start .origin) draft = .error fault last) ∧
          ∃ c, fault = .circular c.name ∧ TransGen draft.cells.Feeds c c) := by
  refine ⟨_, rfl, ?_⟩
  have registered := Draft.registered_mutualReaders (c := ⟨2, 0⟩)
    (show Reference.resolve? .origin ⟨.relative 1, .relative 0⟩ = some ⟨1, 0⟩ by decide)
    (show Reference.resolve? ⟨1, 0⟩ ⟨.relative (-1), .relative 0⟩ = some .origin by decide)
  refine (comes_to_end Draft.keyed_mutualReaders (Draft.hasFormula_mutualReaders (.inl rfl))).2.mono
    (fun _ last done => ?_) (fun fault last failed => ?_)
  · exact done.2 registered ⟨.origin, .refl, Draft.circle_mutualReaders⟩
  · obtain ⟨c, same, _, circle⟩ := failed.2 registered
    exact ⟨failed.1, c, same, circle⟩

end Worksheet
