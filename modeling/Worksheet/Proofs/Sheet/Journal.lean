import Worksheet.Proofs.Sheet.Actions
import Worksheet.Sheet

/-! The journal leads back. Whatever an action does to a draft, the first versions that the journal
holds restore the cells with which the operation began. -/

namespace Worksheet

/-- Each record as it was at the start: its version in the journal, or else the present one. -/
def Draft.Restores (start : Cells) (draft : Draft) : Prop :=
  ∀ name : String, start[name]? =
    match draft.journal[name]? with
    | some version => version
    | none => draft.cells[name]?

namespace Journal

def putBack (cells : Cells) (name : String) (version : Option Cell) : Cells :=
  match version with
  | some cell => cells.insert name cell
  | none => cells.erase name

theorem getElem?_putBack (cells : Cells) (name other : String) (version : Option Cell) :
    (putBack cells name version)[other]? = if name = other then version else cells[other]? := by
  unfold putBack
  cases version with
  | some cell =>
    rw [Std.ExtTreeMap.getElem?_insert]
    simp only [Std.compare_eq_iff_eq]
  | none =>
    rw [Std.ExtTreeMap.getElem?_erase]
    simp only [Std.compare_eq_iff_eq]

theorem getElem?_foldl_putBack (versions : List (String × Option Cell)) (cells : Cells)
    (distinct : versions.Pairwise fun one other => ¬ compare one.1 other.1 = .eq) (name : String) :
    (∀ version, (name, version) ∈ versions →
      (versions.foldl (fun cells entry => putBack cells entry.1 entry.2) cells)[name]? = version) ∧
    ((∀ version, (name, version) ∉ versions) →
      (versions.foldl (fun cells entry => putBack cells entry.1 entry.2) cells)[name]? =
        cells[name]?) := by
  induction versions generalizing cells with
  | nil =>
    constructor
    · intro version member
      exact absurd member List.not_mem_nil
    · intro _
      rfl
  | cons entry rest ih =>
    obtain ⟨apart, distinct⟩ := List.pairwise_cons.1 distinct
    obtain ⟨held, absent⟩ := ih (putBack cells entry.1 entry.2) distinct
    rw [List.foldl_cons]
    constructor
    · intro version member
      -- No name comes twice, so nothing is put over what has been put back.
      rcases List.mem_cons.1 member with same | inner
      · rw [absent, getElem?_putBack, ← same, if_pos rfl]
        intro other later
        exact apart (name, other) later (by rw [← same]; exact Std.ReflOrd.compare_self)
      · exact held version inner
    · intro missing
      rw [absent fun version member => missing version (List.mem_cons_of_mem entry member),
        getElem?_putBack, if_neg]
      intro same
      exact missing entry.2 (same ▸ List.mem_cons_self)

theorem getElem?_revert (journal : Journal) (cells : Cells) (name : String) :
    (journal.revert cells)[name]? =
      match journal[name]? with
      | some version => version
      | none => cells[name]? := by
  have folded : journal.revert cells =
      journal.toList.foldl (fun cells entry => putBack cells entry.1 entry.2) cells := by
    unfold revert
    rw [Std.ExtTreeMap.foldl_eq_foldl_toList]
    rfl
  obtain ⟨held, absent⟩ :=
    getElem?_foldl_putBack journal.toList cells Std.ExtTreeMap.distinct_keys_toList name
  rw [folded]
  cases found : journal[name]? with
  | some version =>
    exact held version (Std.ExtTreeMap.mem_toList_iff_getElem?_eq_some.2 found)
  | none =>
    apply absent
    intro version member
    rw [Std.ExtTreeMap.mem_toList_iff_getElem?_eq_some, found] at member
    cases member

theorem revert_empty (cells : Cells) : (∅ : Journal).revert cells = cells := by
  apply Std.ExtTreeMap.ext_getElem?
  intro name
  rw [getElem?_revert, Std.ExtTreeMap.getElem?_empty]

end Journal

namespace Draft

variable {start : Cells} {draft : Draft}

theorem Restores.revert (restores : draft.Restores start) :
    draft.journal.revert draft.cells = start := by
  apply Std.ExtTreeMap.ext_getElem?
  intro name
  rw [Journal.getElem?_revert]
  exact (restores name).symm

theorem start_restores (start : Cells) : (Draft.start start).Restores start := by
  intro name
  unfold Draft.start
  rw [Std.ExtTreeMap.getElem?_empty]

theorem Restores.noted {next : Draft} (restores : draft.Restores start) (changed : String)
    (journal : next.journal = (draft.note changed).journal)
    (others : ∀ name, changed ≠ name → next.cells[name]? = draft.cells[name]?) :
    next.Restores start := by
  intro name
  rw [restores name, journal]
  unfold note
  rw [Std.ExtTreeMap.getElem?_insertIfNew]
  by_cases same : changed = name
  · subst same
    cases found : draft.journal[changed]? with
    | some version =>
      have member : changed ∈ draft.journal := by
        rw [Std.ExtTreeMap.mem_iff_isSome_getElem?, found]
        rfl
      rw [if_neg fun both => both.2 member]
    | none =>
      have absent : changed ∉ draft.journal := by
        rw [Std.ExtTreeMap.mem_iff_isSome_getElem?, found]
        exact Bool.false_ne_true
      rw [if_pos ⟨Std.ReflOrd.compare_self, absent⟩]
  · rw [if_neg fun both => same (Std.compare_eq_iff_eq.1 both.1), others name same]

theorem Restores.change (restores : draft.Restores start) (a : Address) (f : Cell → Cell) :
    (draft.change a f).Restores start := by
  refine restores.noted a.name rfl ?_
  intro name different
  unfold Draft.change
  rw [Std.ExtTreeMap.getElem?_insert, if_neg fun same => different (Std.compare_eq_iff_eq.1 same)]

theorem Restores.drop (restores : draft.Restores start) (a : Address) :
    (draft.drop a).Restores start := by
  refine restores.noted a.name rfl ?_
  intro name different
  unfold Draft.drop
  rw [Std.ExtTreeMap.getElem?_erase, if_neg fun same => different (Std.compare_eq_iff_eq.1 same)]

theorem Restores.unlink (restores : draft.Restores start) (reader target : Address) :
    (draft.unlink reader target).Restores start := by
  unfold Draft.unlink
  split
  · exact restores
  · simp only
    split
    · exact (restores.change target _).drop target
    · exact restores.change target _

theorem Restores.unlinkAll (restores : draft.Restores start) (base : Address) (formula : Formula) :
    (draft.unlinkAll base formula).Restores start := by
  unfold Draft.unlinkAll
  induction formula.targets base generalizing draft with
  | nil => exact restores
  | cons target rest ih => exact ih (restores.unlink base target)

end Draft

section

variable (start : Cells)

theorem cascade_restores (waiting todo : List String) :
    Keeps (Draft.Restores start) (cascade waiting todo) := by
  refine cascade_keeps (fun _ a draft _ restores => ?_) waiting todo
  refine settle_keeps a (fun draft target restores => ?_) (fun draft value restores => ?_)
    draft restores
  · exact Draft.Restores.change restores target _
  · exact Draft.Restores.change restores a fun cell => { cell with value := value }

theorem recompute_restores (todo : List String) :
    Keeps (Draft.Restores start) (recompute todo) :=
  keeps_get_bind fun draft restores =>
    cascade_restores start draft.cells.formulaNames todo draft restores

theorem install_restores (a : Address) (formula : Formula) :
    Keeps (Draft.Restores start) (install a formula) := by
  unfold install
  split
  · exact keeps_throw _
  next text _ =>
    refine keeps_get_bind fun draft restores => ?_
    have changed : (draft.setContent a ⟨formula, text⟩).Restores start := restores.change a _
    simp only
    split
    next old _ =>
      rw [ends_bind, ends_set]
      exact recompute_restores start [a.name] _ (changed.unlinkAll a old.formula)
    next =>
      rw [ends_bind, ends_set]
      exact recompute_restores start [a.name] _ changed

theorem remove_restores (a : Address) : Keeps (Draft.Restores start) (remove a) := by
  refine keeps_get_bind fun draft restores => ?_
  split
  · exact restores
  next content _ =>
    rw [ends_bind, ends_set]
    exact recompute_restores start _ _ ((restores.unlinkAll a content.formula).drop a)

end

namespace Sheet

section

variable {holds : Draft → Prop} (start : Cells)

theorem named_keeps (text : String) : Keeps holds (named text) := by
  unfold named
  split
  · exact keeps_pure _
  · exact keeps_throw _

theorem parsed_keeps (base : Address) (text : String) : Keeps holds (parsed base text) := by
  unfold parsed
  split
  · exact keeps_pure _
  · exact keeps_throw _

theorem enter_restores (cell text : String) : Keeps (Draft.Restores start) (enter cell text) :=
  keeps_bind (named_keeps cell) fun a => keeps_bind (parsed_keeps a text) fun formula =>
    install_restores start a formula

theorem erase_restores (cell : String) : Keeps (Draft.Restores start) (erase cell) := by
  unfold erase
  split
  · exact remove_restores start _
  · exact keeps_pure ()

theorem transfer_restores (dest source : String) :
    Keeps (Draft.Restores start) (transfer dest source) := by
  refine keeps_bind (named_keeps dest) fun a => keeps_bind (named_keeps source) fun b => ?_
  refine keeps_get_bind fun draft restores => ?_
  split
  · exact remove_restores start a draft restores
  · split
    · exact restores
    next text _ =>
      exact keeps_bind (parsed_keeps a text) (fun formula => install_restores start a formula)
        draft restores

end

variable {sheet : Sheet} {action : Action Unit}

/-- An action either fails and leaves the sheet as it was, without a journal, or succeeds and leaves
the way back. -/
theorem transact_cases {done : Draft → Prop} {failed : Fault → Prop}
    (keeps : Keeps (Draft.Restores sheet.cells) action)
    (ends : Ends action (Draft.start sheet.cells) (fun _ => done) (fun fault _ => failed fault)) :
    (∃ fault, failed fault ∧ sheet.transact action = (.error fault, ⟨sheet.cells, ∅⟩)) ∨
    (∃ draft, done draft ∧ draft.journal.revert draft.cells = sheet.cells ∧
      sheet.transact action = (.ok draft.updates, ⟨draft.cells, draft.journal⟩)) := by
  have restores := keeps (Draft.start sheet.cells) (Draft.start_restores sheet.cells)
  unfold transact EStateM.run
  unfold Ends at ends restores
  cases same : action (Draft.start sheet.cells) with
  | ok x draft =>
    rw [same] at ends restores
    exact .inr ⟨draft, ends, Draft.Restores.revert restores, rfl⟩
  | error fault draft =>
    rw [same] at ends restores
    refine .inl ⟨fault, ends, ?_⟩
    simp only
    rw [Draft.Restores.revert restores]

theorem transact_ok {done : Draft → Prop}
    (ends : Ends action (Draft.start sheet.cells) (fun _ => done) (fun _ _ => True))
    {updates : Updates} (succeeds : (sheet.transact action).1 = .ok updates) :
    ∃ draft, done draft ∧ draft.updates = updates ∧
      (sheet.transact action).2 = ⟨draft.cells, draft.journal⟩ := by
  unfold transact EStateM.run at succeeds ⊢
  unfold Ends at ends
  cases same : action (Draft.start sheet.cells) with
  | ok x draft =>
    rw [same] at ends succeeds
    cases succeeds
    exact ⟨draft, ends, rfl, rfl⟩
  | error fault draft =>
    rw [same] at succeeds
    cases succeeds

end Sheet

end Worksheet
