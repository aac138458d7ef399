import Worksheet.Proofs.Sheet.Intact

/-! Replacing formulas. To install a formula in cells at rest ends with cells at rest, unless the cell
would read itself, and then it fails with the name of this cell; to remove one never fails. Both first
write the cell and let nobody tell it as a reader any more, and then recompute. -/

namespace Worksheet

open Relation Cells

theorem Draft.formula?_setContent (draft : Draft) (a p : Address) (content : Content) :
    (draft.setContent a content).cells.formula? p =
      Function.update draft.cells.formula? a (some content.formula) p := by
  unfold Cells.formula?
  rw [Draft.content?_setContent]
  by_cases same : a = p
  · subst same
    rw [if_pos rfl, Function.update_self]
    rfl
  · rw [if_neg same, Function.update_of_ne fun back => same back.symm]

theorem Draft.formula?_drop (draft : Draft) (a p : Address) :
    (draft.drop a).cells.formula? p = Function.update draft.cells.formula? a none p := by
  unfold Cells.formula?
  rw [Draft.content?_drop]
  by_cases same : a = p
  · subst same
    rw [if_pos rfl, Function.update_self]
    rfl
  · rw [if_neg same, Function.update_of_ne fun back => same back.symm]

theorem Draft.updates_unlink (draft : Draft) (reader target : Address) :
    (draft.unlink reader target).updates = draft.updates := by
  unfold Draft.unlink
  split
  · rfl
  · simp only
    split
    · rfl
    · rfl

theorem Draft.updates_unlinkAll (draft : Draft) (base : Address) (formula : Formula) :
    (draft.unlinkAll base formula).updates = draft.updates := by
  unfold Draft.unlinkAll
  induction formula.targets base generalizing draft with
  | nil => rfl
  | cons target rest ih => exact (ih (draft.unlink base target)).trans (updates_unlink draft base target)

structure Cells.UnlinkedFrom (base : Address) (targets : List Address) (before after : Cells) :
    Prop where
  proper : after.Proper
  content : ∀ p, after.content? p = before.content? p
  value : ∀ p, after.valueAt p = before.valueAt p
  readers : ∀ p name, name ∈ after.readers p ↔
    name ∈ before.readers p ∧ ¬ (p ∈ targets ∧ base.name = name)

theorem unlinkAll_unlinks {draft : Draft} (proper : draft.cells.Proper) (base : Address)
    (formula : Formula) :
    UnlinkedFrom base (formula.targets base) draft.cells (draft.unlinkAll base formula).cells := by
  unfold Draft.unlinkAll
  induction formula.targets base generalizing draft with
  | nil =>
    refine ⟨proper, fun _ => rfl, fun _ => rfl, fun p name => ?_⟩
    simp only [List.foldl_nil, List.not_mem_nil, false_and, not_false_eq_true, and_true]
  | cons target rest ih =>
    have next := ih (Draft.unlink_proper proper base target)
    refine ⟨next.proper, fun p => ?_, fun p => ?_, fun p name => ?_⟩
    · rw [List.foldl_cons, next.content, Draft.content?_unlink proper]
    · rw [List.foldl_cons, next.value, Draft.valueAt_unlink proper]
    · rw [List.foldl_cons, next.readers, Draft.mem_readers_unlink proper, List.mem_cons, eq_comm]
      tauto

theorem Cells.UnlinkedFrom.formula? {base : Address} {targets : List Address}
    {before after : Cells} (unlinked : UnlinkedFrom base targets before after) :
    after.formula? = before.formula? := by
  funext p
  unfold Cells.formula?
  rw [unlinked.content]

theorem Cells.UnlinkedFrom.mem_readers_iff {base : Address} {targets : List Address}
    {before after : Cells} (unlinked : UnlinkedFrom base targets before after)
    (only : ∀ p, base.name ∈ before.readers p → p ∈ targets) {p : Address} {name : String} :
    name ∈ after.readers p ↔ name ∈ before.readers p ∧ base.name ≠ name := by
  rw [unlinked.readers]
  refine and_congr_right fun told => ?_
  constructor
  · intro still same
    exact still ⟨only p (same ▸ told), same⟩
  · intro other both
    exact other both.2

theorem Cells.Intact.mem_targets_of_told {cells : Cells} (intact : cells.Intact) {a p : Address}
    {content : Content} (held : cells.content? a = some content)
    (told : a.name ∈ cells.readers p) : p ∈ content.formula.targets a := by
  obtain ⟨formula, found, read⟩ := intact.formula_of_told told
  rw [formula?_eq_some_iff.2 ⟨content, held, rfl⟩] at found
  cases found
  exact read

theorem Cells.Intact.untold_of_absent {cells : Cells} (intact : cells.Intact) {a : Address}
    (absent : cells.content? a = none) (p : Address) : a.name ∉ cells.readers p := by
  intro told
  obtain ⟨formula, found, _⟩ := intact.formula_of_told told
  rw [formula?_eq_none_iff.2 absent] at found
  cases found

/-- The cells before the recomputation that follows a change of the formula in `a`: nobody is told of
`a` as a reader, and all else is as it was, but for the record of `a` when it has gone. -/
structure Cells.Changed (a : Address) (new : Option Formula) (before after : Cells) : Prop where
  proper : after.Proper
  formula : ∀ p, after.formula? p = Function.update before.formula? a new p
  told : ∀ p name, name ∈ after.readers p → name ∈ before.readers p ∧ a.name ≠ name
  links : ∀ p name, (a = p → new ≠ none) → name ∈ before.readers p → a.name ≠ name →
    name ∈ after.readers p
  value : ∀ p, (a = p → new ≠ none) → after.valueAt p = before.valueAt p

section

variable {a : Address} {new : Option Formula} {before after : Cells}

theorem Cells.Changed.working (changed : Changed a new before after) (intact : before.Intact) :
    Working (Function.update before.formula? a new) after := by
  refine ⟨changed.proper, changed.formula, fun p name told => ?_⟩
  obtain ⟨old, other⟩ := changed.told p name told
  obtain ⟨c, same, reads⟩ := (intact.told p name).1 old
  refine ⟨c, same, (reads_update_of_ne fun back => other ?_).2 reads⟩
  rw [← back, same]

theorem Cells.Changed.settled (changed : Changed a new before after) (intact : before.Intact)
    {c : Address} (different : c ≠ a) (apart : new = none → ¬ Reads before.formula? c a) :
    after.Settled c := by
  intro formula held
  rw [changed.formula, Function.update_of_ne different] at held
  obtain ⟨links, value⟩ := intact.settled c formula held
  have kept : ∀ p ∈ formula.targets c, a = p → new ≠ none :=
    fun p read same gone => apart gone ⟨formula, held, same ▸ read⟩
  refine ⟨fun p read => changed.links p c.name (kept p read) (links p read) ?_, ?_⟩
  · exact fun names => different (Address.name_injective names.symm)
  · rw [changed.value c fun back => absurd back.symm different, ← value]
    exact (intact.proper.wellFormed held).valueIn_congr fun p read => changed.value p (kept p read)

theorem Cells.Changed.told_of_ne (changed : Changed a new before after) (intact : before.Intact)
    {c p : Address} (different : c ≠ a) (kept : a = p → new ≠ none)
    (reads : Reads (Function.update before.formula? a new) c p) : c.name ∈ after.readers p := by
  obtain ⟨formula, held, read⟩ := (reads_update_of_ne different).1 reads
  refine changed.links p c.name kept ((intact.settled c formula held).1 p read) ?_
  exact fun names => different (Address.name_injective names.symm)

theorem Cells.Changed.told_of_none (changed : Changed a none before after)
    (intact : before.Intact) : Told (Function.update before.formula? a none) after := by
  intro c p reads held
  refine changed.told_of_ne intact (fun same => ?_) (fun same => ?_) reads
  · obtain ⟨formula, found, _⟩ := reads
    rw [same, Function.update_self] at found
    cases found
  · obtain ⟨formula, found⟩ := held
    rw [← same, Function.update_self] at found
    cases found

theorem Cells.Changed.told_of_settles {formula : Formula} {last : Cells}
    (changed : Changed a (some formula) before after) (intact : before.Intact)
    (settles : Settles a formula after last) :
    Told (Function.update before.formula? a (some formula)) last := by
  intro c p reads _
  rw [settles.readers]
  by_cases same : c = a
  · subst same
    obtain ⟨other, held, read⟩ := reads
    rw [Function.update_self] at held
    cases held
    exact .inl ⟨read, rfl⟩
  · exact .inr (changed.told_of_ne intact same (fun _ => Option.some_ne_none formula) reads)

end

/-- A path through waiting cells other than `a` was there before `a` was changed. -/
theorem path_of_waiting {formulas : Address → Option Formula} {a : Address} {new : Option Formula}
    {waiting : List String} (elsewhere : ∀ p : Address, p.name ∈ waiting → p ≠ a) {c d : Address}
    (different : c ≠ a)
    (path : TransGen (ReadsWaiting (Function.update formulas a new) waiting) c d) :
    TransGen (Reads formulas) c d ∧ d ≠ a := by
  induction path with
  | single step =>
    exact ⟨.single ((reads_update_of_ne different).1 step.1), elsewhere _ step.2⟩
  | tail front step ih =>
    exact ⟨ih.1.tail ((reads_update_of_ne ih.2).1 step.1), elsewhere _ step.2⟩

theorem Cells.Working.ends_cascade {formulas : Address → Option Formula} {draft : Draft} {a : Address}
    {formula : Formula} (working : Working formulas draft.cells) (held : formulas a = some formula)
    {done : PUnit → Draft → Prop} {failed : Fault → Draft → Prop} :
    Ends (cascade draft.cells.formulaNames [a.name]) draft done failed ↔
      Ends (settle a) draft (fun _ mid =>
        Ends (cascade (draft.cells.formulaNames.erase a.name) (mid.cells.readers a).toList) mid done
          failed) failed := by
  rw [ends_cascade_singleton, ends_visit_waiting (working.mem_formulaNames.2 ⟨formula, held⟩),
    working.formulaAt?_eq_some.2 ⟨rfl, formula, held⟩]

section

variable {formulas : Address → Option Formula} {draft : Draft}

/-- A recomputation that visits whatever is not settled ends with cells at rest, if it ends well only
where there is no circle. -/
theorem recompute_ends {todo : List String} {free : Prop} {failed : Fault → Draft → Prop}
    (working : Working formulas draft.cells)
    (unsettled : ∀ c, ¬ draft.cells.Settled c → c.name ∈ todo)
    (acyclic : free → ∀ c, ¬ TransGen (Reads formulas) c c)
    (outcome : Ends (cascade draft.cells.formulaNames todo) draft (fun _ _ => free) failed) :
    Ends (recompute todo) draft
      (fun _ next => next.cells.Intact ∧ next.cells.formula? = formulas ∧ free) failed := by
  have settles := cascade_settles draft.cells.formulaNames todo (fun _ => False) draft working
    fun c unfinished => .inl (unsettled c unfinished)
  rw [ends_recompute]
  refine (settles.and outcome).mono (fun _ next done => ?_) (fun _ _ failed => failed.2)
  obtain ⟨⟨final, settled⟩, free⟩ := done
  refine ⟨final.intact (acyclic free) fun c => ?_, funext final.formula, free⟩
  by_contra unfinished
  exact settled c unfinished

/-- Where a cascade from the readers of `a` stops with `a` and all other formula cells waiting, it
stops at `a`, and `a` reads itself. -/
theorem circle_of_blocked {before : Cells} (intact : before.Intact) {a c d : Address}
    {new : Option Formula} {waiting : List String} (nodup : waiting.Nodup)
    (inside : d.name ∈ waiting)
    (reads : Reads (Function.update before.formula? a new) c a)
    (blocked : Blocked (Function.update before.formula? a new) (waiting.erase a.name) d c) :
    d = a ∧ TransGen (Reads (Function.update before.formula? a new)) a a := by
  rcases blocked with ⟨outside, path⟩ | circle
  · have back : d = a := by
      by_contra different
      exact outside ((List.mem_erase_of_ne fun names => different (Address.name_injective names)).2
        inside)
    subst back
    exact ⟨rfl, TransGen.tail' (path.lift id fun _ _ step => step.1) reads⟩
  · -- a circle that avoids `a` would have been there before
    exfalso
    have elsewhere : ∀ p : Address, p.name ∈ waiting.erase a.name → p ≠ a :=
      fun p member back => nodup.not_mem_erase (back ▸ member)
    obtain ⟨last, _, step⟩ := TransGen.tail'_iff.1 circle
    exact intact.acyclic d (path_of_waiting elsewhere (elsewhere d step.2) circle).1

theorem cascade_changed {a : Address} {formula : Formula} {before : Cells}
    (intact : before.Intact) (changed : Changed a (some formula) before draft.cells) :
    Ends (cascade draft.cells.formulaNames [a.name]) draft
      (fun _ _ => ¬ before.ClosesCircle a formula)
      (fun fault _ => fault = .circular a.name ∧ before.ClosesCircle a formula) := by
  have working := changed.working intact
  have held : Function.update before.formula? a (some formula) a = some formula :=
    Function.update_self a (some formula) before.formula?
  have nodup := Cells.nodup_formulaNames draft.cells
  rw [working.ends_cascade held]
  refine (settle_working working held).mono (fun _ mid result => ?_) (fun _ _ never => never.elim)
  obtain ⟨next, settled⟩ := result
  have told := changed.told_of_settles intact settled
  refine (cascade_outcome _ _ mid next told).mono (fun _ last done => ?_) (fun fault _ failed => ?_)
  · -- a circle would reach `a`, which waits no more, from one of its readers
    intro circle
    obtain ⟨_, _, within⟩ := done
    obtain ⟨reader, front, reads⟩ := TransGen.tail'_iff.1 circle
    have listed : reader.name ∈ (mid.cells.readers a).toList := by
      rw [Std.ExtTreeSet.mem_toList]
      exact told reader a reads ⟨formula, held⟩
    exact nodup.not_mem_erase
      (within reader a listed ⟨reads.choose, reads.choose_spec.1⟩ front)
  · obtain ⟨reader, d, listed, inside, same, blocked⟩ := failed
    rw [Std.ExtTreeSet.mem_toList] at listed
    obtain ⟨c, names, reads⟩ := next.sound a reader.name listed
    have home := Address.name_injective names
    subst home
    obtain ⟨back, circle⟩ :=
      circle_of_blocked intact nodup (working.mem_formulaNames.2 inside) reads blocked
    subst back
    exact ⟨same, circle⟩

theorem recompute_changed {a : Address} {formula : Formula} {before : Cells}
    (intact : before.Intact) (changed : Changed a (some formula) before draft.cells) :
    Ends (recompute [a.name]) draft
      (fun _ next => next.cells.Intact ∧
        next.cells.formula? = Function.update before.formula? a (some formula) ∧
        ¬ before.ClosesCircle a formula)
      (fun fault _ => fault = .circular a.name ∧ before.ClosesCircle a formula) := by
  refine recompute_ends (changed.working intact) (fun c unfinished => ?_)
    (acyclic_update intact.acyclic) (cascade_changed intact changed)
  by_cases same : c = a
  · exact same ▸ List.mem_singleton_self c.name
  · exact absurd (changed.settled intact same fun gone => absurd gone (Option.some_ne_none formula))
      unfinished

theorem recompute_removed {a : Address} {before : Cells} (intact : before.Intact)
    (changed : Changed a none before draft.cells) :
    Ends (recompute (before.readers a).toList) draft
      (fun _ next => next.cells.Intact ∧
        next.cells.formula? = Function.update before.formula? a none)
      (fun _ _ => False) := by
  have working := changed.working intact
  have acyclic : ∀ c, ¬ TransGen (Reads (Function.update before.formula? a none)) c c :=
    fun c circle => intact.acyclic c (circle.lift id fun _ _ step => reads_of_reads_cleared step)
  have outcome : Ends (cascade draft.cells.formulaNames (before.readers a).toList) draft
      (fun _ _ => True) (fun _ _ => False) := by
    refine (cascade_outcome _ _ draft working (changed.told_of_none intact)).mono
      (fun _ _ _ => trivial) (fun _ _ failed => ?_)
    obtain ⟨_, d, _, inside, _, blocked⟩ := failed
    rcases blocked with ⟨outside, _⟩ | circle
    · exact outside (working.mem_formulaNames.2 inside)
    · exact acyclic d (circle.lift id fun _ _ step => step.1)
  refine (recompute_ends working (fun c unfinished => ?_) (fun _ => acyclic) outcome).mono
    (fun _ _ done => ⟨done.1, done.2.1⟩) (fun _ _ never => never)
  -- Only a cell that read `a` is unsettled when the formula of `a` has gone.
  rw [Std.ExtTreeSet.mem_toList]
  by_contra untold
  apply unfinished
  by_cases same : c = a
  · subst same
    intro formula held
    rw [changed.formula, Function.update_self] at held
    cases held
  · refine changed.settled intact same fun _ reads => untold ?_
    exact (intact.told a c.name).2 ⟨c, rfl, reads⟩

end

section

variable {draft : Draft}

theorem changed_setContent (intact : draft.cells.Intact) {a : Address} {content : Content}
    (written : content.Written a) (absent : draft.cells.content? a = none) :
    Changed a (some content.formula) draft.cells (draft.setContent a content).cells := by
  refine ⟨Draft.setContent_proper intact.proper written,
    fun p => Draft.formula?_setContent draft a p content, fun p name told => ?_,
    fun p name _ told _ => ?_, fun p _ => Draft.valueAt_setContent draft a p content⟩
  · rw [Draft.readers_setContent] at told
    exact ⟨told, fun same => intact.untold_of_absent absent p (same ▸ told)⟩
  · rw [Draft.readers_setContent]
    exact told

theorem changed_unlinkAll (intact : draft.cells.Intact) {a : Address} {content old : Content}
    (written : content.Written a) (held : draft.cells.content? a = some old) :
    Changed a (some content.formula) draft.cells
      ((draft.setContent a content).unlinkAll a old.formula).cells := by
  have unlinked := unlinkAll_unlinks (Draft.setContent_proper intact.proper written) a old.formula
  have readers : ∀ p name,
      name ∈ ((draft.setContent a content).unlinkAll a old.formula).cells.readers p ↔
        name ∈ draft.cells.readers p ∧ a.name ≠ name := by
    intro p name
    rw [← Draft.readers_setContent draft a p content]
    refine unlinked.mem_readers_iff fun q told => ?_
    rw [Draft.readers_setContent] at told
    exact intact.mem_targets_of_told held told
  refine ⟨unlinked.proper, fun p => ?_, fun p name told => (readers p name).1 told,
    fun p name _ told other => (readers p name).2 ⟨told, other⟩, fun p _ => ?_⟩
  · rw [unlinked.formula?]
    exact Draft.formula?_setContent draft a p content
  · rw [unlinked.value, Draft.valueAt_setContent]

theorem changed_drop (intact : draft.cells.Intact) {a : Address} {old : Content}
    (held : draft.cells.content? a = some old) :
    Changed a none draft.cells ((draft.unlinkAll a old.formula).drop a).cells := by
  have unlinked := unlinkAll_unlinks intact.proper a old.formula
  have readers : ∀ p name, name ∈ (draft.unlinkAll a old.formula).cells.readers p ↔
      name ∈ draft.cells.readers p ∧ a.name ≠ name := fun p name =>
    unlinked.mem_readers_iff fun _ told => intact.mem_targets_of_told held told
  refine ⟨Draft.drop_proper unlinked.proper a, fun p => ?_, fun p name told => ?_,
    fun p name kept told other => ?_, fun p kept => ?_⟩
  · rw [Draft.formula?_drop, unlinked.formula?]
  · rw [Draft.readers_drop] at told
    split at told
    · exact absurd told Std.ExtTreeSet.not_mem_empty
    · exact (readers p name).1 told
  · rw [Draft.readers_drop, if_neg fun same => kept same rfl]
    exact (readers p name).2 ⟨told, other⟩
  · rw [Draft.valueAt_drop, if_neg fun same => kept same rfl, unlinked.value]

theorem ends_install {a : Address} {formula : Formula} {done : Unit → Draft → Prop}
    {failed : Fault → Draft → Prop} (intact : draft.cells.Intact) (fine : formula.WellFormed a)
    (next : ∀ changed : Draft, Changed a (some formula) draft.cells changed.cells →
      changed.updates = draft.updates → Ends (recompute [a.name]) changed done failed) :
    Ends (install a formula) draft done failed := by
  obtain ⟨text, rendered⟩ := fine.render_exists
  have written : Content.Written ⟨formula, text⟩ a := ⟨fine, rendered⟩
  unfold install
  rw [rendered]
  simp only
  rw [ends_bind, ends_get]
  cases held : draft.cells.content? a with
  | some old =>
    simp only
    rw [ends_bind, ends_set]
    exact next _ (changed_unlinkAll intact written held) (Draft.updates_unlinkAll _ a old.formula)
  | none =>
    simp only
    rw [ends_bind, ends_set]
    exact next _ (changed_setContent intact written held) rfl

theorem ends_remove {a : Address} {old : Formula} {done : Unit → Draft → Prop}
    {failed : Fault → Draft → Prop} (intact : draft.cells.Intact)
    (held : draft.cells.formula? a = some old)
    (next : ∀ changed : Draft, Changed a none draft.cells changed.cells →
      changed.updates = draft.updates →
      Ends (recompute (draft.cells.readers a).toList) changed done failed) :
    Ends (remove a) draft done failed := by
  obtain ⟨content, inner, _⟩ := formula?_eq_some_iff.1 held
  unfold remove
  rw [ends_bind, ends_get, inner]
  simp only
  rw [ends_bind, ends_set]
  exact next _ (changed_drop intact inner) (Draft.updates_unlinkAll draft a content.formula)

theorem install_ends {a : Address} {formula : Formula} (intact : draft.cells.Intact)
    (fine : formula.WellFormed a) :
    Ends (install a formula) draft
      (fun _ next => next.cells.Intact ∧
        next.cells.formula? = Function.update draft.cells.formula? a (some formula) ∧
        ¬ draft.cells.ClosesCircle a formula)
      (fun fault _ => fault = .circular a.name ∧ draft.cells.ClosesCircle a formula) :=
  ends_install intact fine fun _ changed _ => recompute_changed intact changed

theorem remove_ends (a : Address) (intact : draft.cells.Intact) :
    Ends (remove a) draft
      (fun _ next => next.cells.Intact ∧
        next.cells.formula? = Function.update draft.cells.formula? a none)
      (fun _ _ => False) := by
  cases held : draft.cells.formula? a with
  | none =>
    have empty := formula?_eq_none_iff.1 held
    unfold remove
    rw [ends_bind, ends_get, empty]
    refine ⟨intact, ?_⟩
    rw [← held, Function.update_eq_self]
  | some old => exact ends_remove intact held fun _ changed _ => recompute_removed intact changed

end

end Worksheet
