import Worksheet.Proofs.Sheet.Copying
import Worksheet.Proofs.Sheet.Walks

/-! What an operation reports. Its updates name the changed cell and all cells that depend on it, in the
order of a walk along readers, each with the value that it has in the end; and a cell that they do not
name is as it was. -/

namespace Worksheet

open Relation Cells

namespace Updates

def keys (updates : Updates) : List Address := updates.map Prod.fst

variable {updates : Updates} {a : Address} {value : Float}

theorem keys_cons (entry : Address × Float) (updates : Updates) :
    keys (entry :: updates) = entry.1 :: updates.keys := rfl

theorem keys_record_of_mem (member : a ∈ updates.keys) :
    (updates.record a value).keys = updates.keys := by
  induction updates with
  | nil => exact absurd member List.not_mem_nil
  | cons entry rest ih =>
    obtain ⟨other, old⟩ := entry
    unfold record
    split
    next same => rw [keys_cons, keys_cons, same]
    next different =>
      rw [keys_cons, keys_cons, ih ((List.mem_cons.1 member).resolve_left fun same => different same.symm)]

theorem keys_record_of_not_mem (fresh : a ∉ updates.keys) :
    (updates.record a value).keys = updates.keys ++ [a] := by
  induction updates with
  | nil => rfl
  | cons entry rest ih =>
    obtain ⟨other, old⟩ := entry
    unfold record
    rw [keys_cons, List.mem_cons, not_or] at fresh
    rw [if_neg fun same => fresh.1 same.symm, keys_cons, keys_cons, ih fresh.2, List.cons_append]

theorem mem_keys_record {p : Address} :
    p ∈ (updates.record a value).keys ↔ p ∈ updates.keys ∨ p = a := by
  by_cases met : a ∈ updates.keys
  · rw [keys_record_of_mem met]
    exact (or_iff_left_of_imp fun same => same ▸ met).symm
  · rw [keys_record_of_not_mem met, List.mem_append, List.mem_singleton]

theorem nodup_keys_record (distinct : updates.keys.Nodup) : (updates.record a value).keys.Nodup := by
  by_cases met : a ∈ updates.keys
  · rw [keys_record_of_mem met]
    exact distinct
  · rw [keys_record_of_not_mem met]
    exact List.nodup_append_comm.1 (List.nodup_cons.2 ⟨met, distinct⟩)

theorem mem_record (distinct : updates.keys.Nodup) {entry : Address × Float}
    (member : entry ∈ updates.record a value) :
    entry = (a, value) ∨ (entry ∈ updates ∧ entry.1 ≠ a) := by
  induction updates with
  | nil => exact .inl (List.mem_singleton.1 member)
  | cons head rest ih =>
    obtain ⟨other, old⟩ := head
    obtain ⟨apart, distinct⟩ := List.nodup_cons.1 distinct
    unfold record at member
    split at member
    next same =>
      rcases List.mem_cons.1 member with new | later
      · exact .inl new
      · refine .inr ⟨List.mem_cons_of_mem _ later, fun back => apart ?_⟩
        change other ∈ keys rest
        rw [same, ← back]
        exact List.mem_map_of_mem later
    next different =>
      rcases List.mem_cons.1 member with rfl | later
      · exact .inr ⟨List.mem_cons_self, different⟩
      · exact (ih distinct later).imp_right fun found => ⟨List.mem_cons_of_mem _ found.1, found.2⟩

end Updates

/-! The order. -/

section

variable {formulas : Address → Option Formula}

/-- The readers of every waiting cell that has been computed have been computed too. -/
def ClosedUpon (formulas : Address → Option Formula) (waiting : List String) (keys : List Address) :
    Prop :=
  ∀ c ∈ keys, c.name ∈ waiting → ∀ d, Reads formulas d c → d ∈ keys

theorem closedUpon_nil (formulas : Address → Option Formula) (waiting : List String) :
    ClosedUpon formulas waiting [] := fun _ found => absurd found List.not_mem_nil

namespace ClosedUpon

variable {waiting : List String} {keys : List Address}

theorem erase (closed : ClosedUpon formulas waiting keys) (name : String) :
    ClosedUpon formulas (waiting.erase name) keys :=
  fun c found waits => closed c found (List.mem_of_mem_erase waits)

theorem enter (closed : ClosedUpon formulas waiting keys) (distinct : waiting.Nodup) (a : Address) :
    ClosedUpon formulas (waiting.erase a.name) (keys ++ [a]) := by
  intro c found waits d reads
  rcases List.mem_append.1 found with old | here
  · exact List.mem_append_left _ (closed c old (List.mem_of_mem_erase waits) d reads)
  · rw [List.mem_singleton.1 here] at waits
    exact absurd waits distinct.not_mem_erase

theorem leave {a : Address} (closed : ClosedUpon formulas (waiting.erase a.name) keys)
    (readers : ∀ d, Reads formulas d a → d ∈ keys) : ClosedUpon formulas waiting keys := by
  intro c found waits d reads
  by_cases same : c = a
  · exact readers d (same ▸ reads)
  · refine closed c found ((List.mem_erase_of_ne fun names => same ?_).2 waits) d reads
    exact Address.name_injective names

end ClosedUpon

theorem settle_updates (a : Address) (draft : Draft) :
    Ends (settle a) draft (fun _ next => ∃ value, next.updates = draft.updates.record a value)
      (fun _ _ => True) := by
  unfold settle
  rw [ends_bind, ends_get]
  split
  next content _ =>
    have kept : Keeps (fun next => next.updates = draft.updates) (evaluate a content.formula) :=
      evaluate_keeps (fun _ _ same => same) content.formula
    rw [ends_bind]
    refine (kept draft rfl).mono (fun value mid same => ?_) (fun _ _ _ => trivial)
    exact ⟨value, congrArg (Updates.record a value) same⟩
  next => exact ⟨0, rfl⟩

theorem Cells.Working.exists_readers {cells : Cells} (working : Working formulas cells)
    (told : Told formulas cells) {p : Address} (held : ∃ formula, formulas p = some formula) :
    ∃ readers : List Address, (cells.readers p).toList = readers.map Address.name ∧
      ReadersInOrder formulas p readers := by
  have found : ∀ name ∈ (cells.readers p).toList, ∃ a, cells.formulaAt? name = some a := by
    intro name member
    rw [Std.ExtTreeSet.mem_toList] at member
    obtain ⟨a, rfl, formula, inside, _⟩ := working.sound p name member
    exact ⟨a, working.formulaAt?_eq_some.2 ⟨rfl, formula, inside⟩⟩
  have names := working.proper.map_name_filterMap found
  refine ⟨_, names.symm, ?_, fun a => ?_⟩
  · have sorted : (cells.readers p).toList.Pairwise fun one other => compare one other = .lt :=
      Std.ExtTreeSet.ordered_toList
    rw [← names, List.pairwise_map] at sorted
    exact sorted.imp fun below => compare_lt_iff_lt.1 below
  · rw [← List.mem_map_of_injective Address.name_injective, names, Std.ExtTreeSet.mem_toList]
    constructor
    · intro member
      obtain ⟨c, same, reads⟩ := working.sound p a.name member
      exact Address.name_injective same ▸ reads
    · exact fun reads => told a p reads held

/-- The action goes on with the walk along `starts`, in the order of first computations. -/
def GoesOn (formulas : Address → Option Formula) (waiting todo : List String) (action : Action Unit) :
    Prop :=
  ∀ (starts : List Address) (draft : Draft), todo = starts.map Address.name →
    (∀ s ∈ starts, ∃ formula, formulas s = some formula) → waiting.Nodup →
    Working formulas draft.cells → Told formulas draft.cells →
    ClosedUpon formulas waiting draft.updates.keys →
    Ends action draft
      (fun _ next => Working formulas next.cells ∧ Told formulas next.cells ∧
        ClosedUpon formulas waiting next.updates.keys ∧
        Walks formulas draft.updates.keys starts next.updates.keys)
      (fun _ _ => True)

theorem goesOn_visit_passed {waiting : List String} {name : String} (absent : name ∉ waiting) :
    GoesOn formulas waiting [name] (visit waiting.length waiting name) := by
  intro starts draft same held _ working _ _
  rw [ends_visit_passed absent]
  split
  next empty =>
    obtain ⟨s, rfl, named⟩ := List.map_eq_singleton_iff.1 same.symm
    obtain ⟨formula, held⟩ := held s (List.mem_singleton_self s)
    rw [working.unheld_of_absent empty named] at held
    cases held
  next => exact trivial

theorem goesOn_visit_waiting {waiting : List String} {name : String} (member : name ∈ waiting)
    (inner : ∀ todo, GoesOn formulas (waiting.erase name) todo (cascade (waiting.erase name) todo)) :
    GoesOn formulas waiting [name] (visit waiting.length waiting name) := by
  intro starts draft same held distinct working told closed
  obtain ⟨a, rfl, rfl⟩ := List.map_eq_singleton_iff.1 same.symm
  obtain ⟨formula, held⟩ := held a (List.mem_singleton_self a)
  rw [ends_visit_waiting member, working.formulaAt?_eq_some.2 ⟨rfl, formula, held⟩]
  refine ((settle_working working held).and (settle_updates a draft)).mono (fun _ mid result => ?_)
    (fun _ _ _ => trivial)
  obtain ⟨⟨next, settles⟩, value, updates⟩ := result
  have informed := told.settles settles
  obtain ⟨readers, names, order⟩ := next.exists_readers informed ⟨formula, held⟩
  have holds : ∀ c ∈ readers, ∃ formula, formulas c = some formula :=
    fun c reader => ((order.2 c).1 reader).imp fun _ both => both.1
  by_cases met : a ∈ draft.updates.keys
  · -- a cell that comes again has all its readers behind it already
    have keys : mid.updates.keys = draft.updates.keys := by
      rw [updates, Updates.keys_record_of_mem met]
    refine (inner _ readers mid names holds (distinct.erase a.name) next informed
      (keys ▸ closed.erase a.name)).mono (fun _ last done => ?_) (fun _ _ _ => trivial)
    obtain ⟨working, told, _, walks⟩ := done
    rw [keys] at walks
    have nothing := walks.eq_of_subset fun d reader => closed a met member d ((order.2 d).1 reader)
    rw [nothing]
    exact ⟨working, told, closed, .pass met (.nil _)⟩
  · have keys : mid.updates.keys = draft.updates.keys ++ [a] := by
      rw [updates, Updates.keys_record_of_not_mem met]
    refine (inner _ readers mid names holds (distinct.erase a.name) next informed
      (keys ▸ closed.enter distinct a)).mono (fun _ last done => ?_) (fun _ _ _ => trivial)
    obtain ⟨working, told, ended, walks⟩ := done
    rw [keys] at walks
    exact ⟨working, told, ended.leave fun d reads => walks.covers ((order.2 d).2 reads),
      .enter met order walks (.nil _)⟩

theorem goesOn_cascade_cons {waiting rest : List String} {name : String}
    (first : GoesOn formulas waiting [name] (visit waiting.length waiting name))
    (second : GoesOn formulas waiting rest (cascade waiting rest)) :
    GoesOn formulas waiting (name :: rest) (cascade waiting (name :: rest)) := by
  intro starts draft same held distinct working told closed
  obtain ⟨s, others, rfl, named, behind⟩ := List.map_eq_cons_iff.1 same.symm
  rw [ends_cascade_cons]
  refine (first [s] draft (by rw [← named]; rfl) (fun c member => ?_) distinct working told closed).mono
    (fun _ mid done => ?_) (fun _ _ _ => trivial)
  · exact held c (List.mem_singleton.1 member ▸ List.mem_cons_self)
  · obtain ⟨working, told, closed, walks⟩ := done
    refine (second others mid behind.symm (fun c member => held c (List.mem_cons_of_mem s member))
      distinct working told closed).mono (fun _ last done => ?_) (fun _ _ _ => trivial)
    obtain ⟨working, told, closed, walks'⟩ := done
    exact ⟨working, told, closed, walks.append walks'⟩

theorem cascade_goesOn (waiting todo : List String) :
    GoesOn formulas waiting todo (cascade waiting todo) := by
  refine cascade_induction
    (fun waiting name => GoesOn formulas waiting [name] (visit waiting.length waiting name))
    (fun waiting todo => GoesOn formulas waiting todo (cascade waiting todo))
    (fun _ _ absent => goesOn_visit_passed absent)
    (fun _ _ member inner => goesOn_visit_waiting member inner) (fun waiting => ?_)
    (fun _ _ _ first second => goesOn_cascade_cons first second) waiting todo
  intro starts draft same _ _ working told closed
  cases List.map_eq_nil_iff.1 same.symm
  exact ⟨working, told, closed, .nil _⟩

end

/-! The values. -/

namespace Draft

/-- The updates tell of every computed cell once, with the value that it has; and the other cells have
the values they had. -/
structure Tells (values : Address → Float) (draft : Draft) : Prop where
  distinct : draft.updates.keys.Nodup
  value : ∀ entry ∈ draft.updates, draft.cells.valueAt entry.1 = entry.2
  others : ∀ p, p ∉ draft.updates.keys → draft.cells.valueAt p = values p

variable {values : Address → Float} {draft : Draft}

theorem tells_of_fresh (fresh : draft.updates = []) : draft.Tells draft.cells.valueAt := by
  refine ⟨?_, fun entry member => ?_, fun _ _ => rfl⟩
  · rw [fresh]
    exact List.nodup_nil
  · rw [fresh] at member
    exact absurd member List.not_mem_nil

theorem Tells.link (tells : draft.Tells values) (reader target : Address) :
    (draft.link reader target).Tells values :=
  ⟨tells.distinct, fun entry member => (valueAt_link draft reader target entry.1).trans
    (tells.value entry member), fun p absent => (valueAt_link draft reader target p).trans
    (tells.others p absent)⟩

theorem Tells.setValue (tells : draft.Tells values) (a : Address) (value : Float) :
    (draft.setValue a value).Tells values := by
  refine ⟨Updates.nodup_keys_record tells.distinct, fun entry member => ?_, fun p absent => ?_⟩
  · rw [valueAt_setValue]
    rcases Updates.mem_record tells.distinct member with rfl | ⟨old, different⟩
    · exact if_pos rfl
    · rw [if_neg fun same => different same.symm]
      exact tells.value entry old
  · change p ∉ (draft.updates.record a value).keys at absent
    rw [Updates.mem_keys_record, not_or] at absent
    rw [valueAt_setValue, if_neg fun same => absent.2 same.symm]
    exact tells.others p absent.1

end Draft

theorem cascade_tells {values : Address → Float} (waiting todo : List String) :
    Keeps (Draft.Tells values) (cascade waiting todo) := by
  refine cascade_keeps (fun _ a draft _ tells => ?_) waiting todo
  have kept : Keeps (Draft.Tells values) (settle a) :=
    settle_keeps a (fun _ target tells => tells.link a target) (fun _ value tells => tells.setValue a value)
  exact kept draft tells

/-! The operations. -/

section

variable {draft : Draft} {a : Address} {before : Cells}

theorem recompute_tells (fresh : draft.updates = []) (todo : List String) :
    Ends (recompute todo) draft (fun _ next => next.Tells draft.cells.valueAt) (fun _ _ => True) := by
  rw [ends_recompute]
  exact (cascade_tells _ todo draft (Draft.tells_of_fresh fresh)).mono (fun _ _ tells => tells)
    (fun _ _ _ => trivial)

theorem recompute_changed_walks {formula : Formula} (intact : before.Intact)
    (changed : Changed a (some formula) before draft.cells) (fresh : draft.updates = []) :
    Ends (recompute [a.name]) draft
      (fun _ next =>
        Walks (Function.update before.formula? a (some formula)) [] [a] next.updates.keys)
      (fun _ _ => True) := by
  have working := changed.working intact
  have held : Function.update before.formula? a (some formula) a = some formula :=
    Function.update_self a (some formula) before.formula?
  have nodup := Cells.nodup_formulaNames draft.cells
  rw [ends_recompute, working.ends_cascade held]
  refine ((settle_working working held).and (settle_updates a draft)).mono (fun _ mid result => ?_)
    (fun _ _ _ => trivial)
  obtain ⟨⟨next, settles⟩, value, updates⟩ := result
  have keys : mid.updates.keys = [a] := by
    rw [updates, fresh]
    rfl
  have told := changed.told_of_settles intact settles
  obtain ⟨readers, names, order⟩ := next.exists_readers told ⟨formula, held⟩
  have closed : ClosedUpon (Function.update before.formula? a (some formula))
      (draft.cells.formulaNames.erase a.name) mid.updates.keys := by
    rw [keys]
    exact (closedUpon_nil _ _).enter nodup a
  refine (cascade_goesOn _ _ readers mid names (fun c reader => ?_) (nodup.erase a.name) next told
    closed).mono (fun _ last done => ?_) (fun _ _ _ => trivial)
  · exact ((order.2 c).1 reader).imp fun _ both => both.1
  · obtain ⟨_, _, _, walks⟩ := done
    rw [keys] at walks
    exact .enter List.not_mem_nil order walks (.nil _)

theorem recompute_removed_walks (intact : before.Intact)
    (changed : Changed a none before draft.cells) (fresh : draft.updates = []) {old : Formula}
    (held : before.formula? a = some old) :
    ∃ readers, ReadersInOrder (Function.update before.formula? a none) a readers ∧
      Ends (recompute (before.readers a).toList) draft
        (fun _ next => Walks (Function.update before.formula? a none) [] readers next.updates.keys)
        (fun _ _ => True) := by
  have working := changed.working intact
  have informed : Told before.formula? before := fun c p reads _ => (intact.told p c.name).2 ⟨c, rfl, reads⟩
  obtain ⟨readers, names, sorted, readers_iff⟩ := intact.working.exists_readers informed ⟨old, held⟩
  -- `a` is no reader of its own, so its formula had no part in the readers
  have others : ∀ c, Reads (Function.update before.formula? a none) c a ↔ Reads before.formula? c a := by
    intro c
    refine ⟨reads_of_reads_cleared, fun reads => (reads_update_of_ne fun same => ?_).2 reads⟩
    exact intact.acyclic a (.single (same ▸ reads))
  refine ⟨readers, ⟨sorted, fun c => (readers_iff c).trans (others c).symm⟩, ?_⟩
  rw [ends_recompute]
  refine (cascade_goesOn _ _ readers draft names (fun c reader => ?_)
    (Cells.nodup_formulaNames draft.cells) working (changed.told_of_none intact) ?_).mono
    (fun _ next done => ?_) (fun _ _ _ => trivial)
  · exact ((others c).2 ((readers_iff c).1 reader)).imp fun _ both => both.1
  · rw [fresh]
    exact closedUpon_nil _ _
  · obtain ⟨_, _, _, walks⟩ := done
    rw [fresh] at walks
    exact walks

structure Draft.Reported (a : Address) (new : Option Formula) (starts : List Address) (before : Cells)
    (draft : Draft) : Prop where
  intact : draft.cells.Intact
  formulas : draft.cells.formula? = Function.update before.formula? a new
  order : Walks draft.cells.formula? [] starts draft.updates.keys
  value : ∀ entry ∈ draft.updates, draft.cells.valueAt entry.1 = entry.2
  others : ∀ p, p ∉ draft.updates.keys → p ≠ a → draft.cells.valueAt p = before.valueAt p

theorem recompute_changed_reported {formula : Formula} (intact : before.Intact)
    (changed : Changed a (some formula) before draft.cells) (fresh : draft.updates = []) :
    Ends (recompute [a.name]) draft (fun _ next => next.Reported a (some formula) [a] before)
      (fun _ _ => True) := by
  refine ((recompute_changed intact changed).and ((recompute_changed_walks intact changed fresh).and
    (recompute_tells fresh [a.name]))).mono (fun _ next done => ?_) (fun _ _ _ => trivial)
  obtain ⟨⟨rest, formulas, _⟩, walks, tells⟩ := done
  exact ⟨rest, formulas, formulas ▸ walks, tells.value, fun p absent different =>
    (tells.others p absent).trans (changed.value p fun same => absurd same.symm different)⟩

theorem install_reported {formula : Formula} (intact : draft.cells.Intact)
    (fine : formula.WellFormed a) (fresh : draft.updates = []) :
    Ends (install a formula) draft (fun _ next => next.Reported a (some formula) [a] draft.cells)
      (fun _ _ => True) := by
  refine ends_install intact fine fun changed replaced same => ?_
  exact recompute_changed_reported intact replaced (same.trans fresh)

theorem remove_reported (intact : draft.cells.Intact) {old : Formula}
    (held : draft.cells.formula? a = some old) (fresh : draft.updates = []) :
    Ends (remove a) draft
      (fun _ next => ∃ readers, ReadersInOrder next.cells.formula? a readers ∧
        next.Reported a none readers draft.cells)
      (fun _ _ => True) := by
  refine ends_remove intact held fun changed dropped same => ?_
  have untouched := same.trans fresh
  obtain ⟨readers, order, walk⟩ := recompute_removed_walks intact dropped untouched held
  refine ((recompute_removed intact dropped).and (walk.and (recompute_tells untouched _))).mono
    (fun _ next done => ?_) (fun _ _ _ => trivial)
  obtain ⟨⟨rest, formulas⟩, walks, tells⟩ := done
  refine ⟨readers, formulas ▸ order, rest, formulas, formulas ▸ walks, tells.value,
    fun p absent different => (tells.others p absent).trans (dropped.value p fun same => ?_)⟩
  exact absurd same.symm different

end

end Worksheet
