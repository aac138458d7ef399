import Worksheet.Proofs.Placing
import Worksheet.Proofs.Sheet.Rebuilding

/-! Copying. A copy writes a formula anew in another cell and reads the text there; when it succeeds the
very formula has been put in, with its offsets and fixed indices. It fails only because a reference
leads to no cell with a name there, or because the formula closes a circle there. -/

namespace Worksheet

open Relation Cells

inductive Cells.RefusesCopy (cells : Cells) (a : Address) (formula : Formula) : Fault → Prop
  | outside {r : Reference} (cause : FormulaFault) (member : r ∈ formula.references)
      (off : ¬ r.Lands a) : RefusesCopy cells a formula (.formula cause)
  | circular (inside : ∀ r ∈ formula.references, r.Lands a) (circle : cells.ClosesCircle a formula) :
      RefusesCopy cells a formula (.circular a.name)

namespace Sheet

/-- Copies from cell to cell: each of the names takes the formula of the one before it. -/
def copies (source : String) : List String → List Operation
  | [] => []
  | dest :: rest => .copy dest source :: copies dest rest

def Succeeds (sheet : Sheet) : List Operation → Prop
  | [] => True
  | operation :: rest =>
      (∃ updates, (sheet.perform operation).1 = .ok updates) ∧
        (sheet.perform operation).2.Succeeds rest

variable {sheet : Sheet} {dest source : String} {a b : Address} {formula : Formula}

/-- What a successful copy from `b` to `a` has done. -/
structure Copied (sheet : Sheet) (a b : Address) (next : Cells) : Prop where
  intact : next.Intact
  formulas : next.formula? = Function.update sheet.cells.formula? a (sheet.cells.formula? b)
  inside : ∀ formula, sheet.cells.formula? b = some formula →
    (∀ r ∈ formula.references, r.Lands a) ∧ ¬ sheet.cells.ClosesCircle a formula

theorem transfer_ends (intact : sheet.cells.Intact) (toDest : Address.ofName? dest = some a)
    (fromSource : Address.ofName? source = some b) :
    Ends (transfer dest source) (Draft.start sheet.cells)
      (fun _ next => sheet.Copied a b next.cells)
      (fun fault _ => ∃ formula, sheet.cells.formula? b = some formula ∧
        sheet.cells.RefusesCopy a formula fault) := by
  unfold transfer named
  rw [toDest, fromSource, ends_bind, ends_pure, ends_bind, ends_pure, ends_bind, ends_get]
  cases held : sheet.cells.content? b with
  | none =>
    have empty := formula?_eq_none_iff.2 held
    rw [show (Draft.start sheet.cells).cells.content? b = none from held]
    refine (remove_ends a intact).mono (fun _ next done => ⟨done.1, ?_, fun formula found => ?_⟩)
      (fun _ _ never => never.elim)
    · rw [empty]
      exact done.2
    · rw [empty] at found
      cases found
  | some content =>
    have found := formula?_eq_some_iff.2 ⟨content, held, rfl⟩
    rw [show (Draft.start sheet.cells).cells.content? b = some content from held]
    simp only
    -- The formula is written in its new cell and read back there. Both succeed if no reference leads off the
    -- sheet, and otherwise one of them fails.
    rcases (intact.proper.wellFormed found).place_cases a with ⟨lands, placed⟩ | ⟨⟨r, member, off⟩, failed⟩
    · obtain ⟨text, rendered, back⟩ := placed.read_render
      unfold parsed
      rw [rendered]
      simp only
      rw [back, ends_bind, ends_pure]
      refine (install_ends intact placed).mono (fun _ next done => ⟨done.1, ?_, fun formula same => ?_⟩)
        (fun fault _ failed => ?_)
      · rw [found]
        exact done.2.1
      · cases found.symm.trans same
        exact ⟨lands, done.2.2⟩
      · exact ⟨_, found, failed.1 ▸ .circular lands failed.2⟩
    · rcases failed with unwritten | ⟨text, cause, rendered, unread⟩
      · rw [unwritten]
        exact ⟨_, found, .outside _ member off⟩
      · unfold parsed
        rw [rendered]
        simp only
        rw [unread, ends_bind, ends_throw]
        exact ⟨_, found, .outside _ member off⟩

theorem copy_outcome (intact : sheet.cells.Intact) (toDest : Address.ofName? dest = some a)
    (fromSource : Address.ofName? source = some b) :
    (∃ formula fault, sheet.cells.formula? b = some formula ∧ sheet.cells.RefusesCopy a formula fault ∧
      sheet.copy dest source = (.error fault, ⟨sheet.cells, ∅⟩)) ∨
    ∃ updates next, sheet.copy dest source = (.ok updates, next) ∧ sheet.Copied a b next.cells := by
  rcases transact_cases (transfer_restores sheet.cells dest source)
      (transfer_ends intact toDest fromSource) with
    ⟨fault, ⟨formula, found, refuses⟩, result⟩ | ⟨draft, copied, _, result⟩
  · exact .inl ⟨formula, fault, found, refuses, result⟩
  · exact .inr ⟨draft.updates, ⟨draft.cells, draft.journal⟩, result, copied⟩

theorem names_of_copy {updates : Updates} (done : (sheet.copy dest source).1 = .ok updates) :
    ∃ a b, Address.ofName? dest = some a ∧ Address.ofName? source = some b := by
  have ends : Ends (transfer dest source) (Draft.start sheet.cells)
      (fun _ _ => ∃ a b, Address.ofName? dest = some a ∧ Address.ofName? source = some b)
      (fun _ _ => True) := by
    unfold transfer
    rw [ends_bind]
    refine ends_named (fun a toDest => ?_) (fun _ => trivial)
    rw [ends_bind]
    refine ends_named (fun b fromSource => ?_) (fun _ => trivial)
    exact ends_of_fact ⟨a, b, toDest, fromSource⟩
  obtain ⟨_, names, _⟩ := transact_ok ends done
  exact names

theorem copied_of_ok (intact : sheet.cells.Intact) (toDest : Address.ofName? dest = some a)
    (fromSource : Address.ofName? source = some b) {updates : Updates}
    (done : (sheet.copy dest source).1 = .ok updates) :
    sheet.Copied a b (sheet.copy dest source).2.cells := by
  rcases copy_outcome intact toDest fromSource with
    ⟨formula, fault, _, _, result⟩ | ⟨updates, next, result, copied⟩
  · rw [result] at done
    cases done
  · rw [result]
    exact copied

theorem copy_of_empty (toDest : Address.ofName? dest = some a)
    (fromSource : Address.ofName? source = some b) (empty : sheet.cells.formula? b = none) :
    sheet.copy dest source = sheet.delete dest := by
  have same : transfer dest source (Draft.start sheet.cells) = erase dest (Draft.start sheet.cells) := by
    unfold transfer erase named
    rw [toDest, fromSource, pure_bind, pure_bind, get_bind,
      show (Draft.start sheet.cells).cells.content? b = none from formula?_eq_none_iff.1 empty]
  unfold copy delete transact EStateM.run
  rw [same]

theorem Copied.eq_of_self {next : Cells} (copied : sheet.Copied a a next)
    (intact : sheet.cells.Intact) : next = sheet.cells := by
  refine copied.intact.eq_of_formula? intact ?_
  rw [copied.formulas]
  exact Function.update_eq_self a sheet.cells.formula?

theorem not_refusesCopy_self (intact : sheet.cells.Intact)
    (held : sheet.cells.formula? a = some formula) {fault : Fault} :
    ¬ sheet.cells.RefusesCopy a formula fault := by
  intro refuses
  cases refuses with
  | outside cause member off => exact off ((intact.proper.wellFormed held).lands _ member)
  | circular inside circle =>
    unfold ClosesCircle at circle
    rw [← held, Function.update_eq_self] at circle
    exact intact.acyclic a circle

theorem formula?_run_copies (stable : sheet.Stable) (fromSource : Address.ofName? source = some b)
    (toDest : Address.ofName? dest = some a) {names : List String}
    (succeeds : sheet.Succeeds (copies source (names ++ [dest]))) :
    (sheet.run (copies source (names ++ [dest]))).cells.formula? a = sheet.cells.formula? b := by
  -- Each copy is the source of the next one, in the sheet that it has left.
  induction names generalizing sheet source b with
  | nil =>
    obtain ⟨⟨updates, done⟩, _⟩ := succeeds
    have copied := copied_of_ok stable.now.intact toDest fromSource done
    change (sheet.copy dest source).2.cells.formula? a = _
    rw [copied.formulas, Function.update_self]
  | cons name rest ih =>
    obtain ⟨⟨updates, done⟩, others⟩ := succeeds
    obtain ⟨c, _, named, _⟩ := names_of_copy done
    have copied := copied_of_ok stable.now.intact named fromSource done
    refine (ih (stable.perform (.copy name source)) named others).trans ?_
    change (sheet.copy name source).2.cells.formula? c = _
    rw [copied.formulas, Function.update_self]

theorem copy_iff (intact : sheet.cells.Intact) (toDest : Address.ofName? dest = some a)
    (fromSource : Address.ofName? source = some b) (held : sheet.cells.formula? b = some formula) :
    ((∃ fault, (sheet.copy dest source).1 = .error fault ∧ fault.code = "SYNTAX") ↔
      ∃ r ∈ formula.references, ¬ r.Lands a) ∧
    (∀ name, (sheet.copy dest source).1 = .error (.circular name) ↔
      name = a.name ∧ (∀ r ∈ formula.references, r.Lands a) ∧ sheet.cells.ClosesCircle a formula) ∧
    ((∃ updates, (sheet.copy dest source).1 = .ok updates) ↔
      (∀ r ∈ formula.references, r.Lands a) ∧ ¬ sheet.cells.ClosesCircle a formula) := by
  rcases copy_outcome intact toDest fromSource with
    ⟨other, fault, found, refuses, result⟩ | ⟨updates, next, result, copied⟩
  · rw [result]
    cases held.symm.trans found
    cases refuses with
    | @outside r cause member off =>
      have notAll : ¬ ∀ r ∈ formula.references, r.Lands a := fun all => off (all r member)
      refine ⟨iff_of_true ⟨_, rfl, rfl⟩ ⟨r, member, off⟩, fun name => iff_of_false nofun ?_,
        iff_of_false nofun ?_⟩
      · exact fun both => notAll both.2.1
      · exact fun both => notAll both.1
    | circular inside circle =>
      refine ⟨iff_of_false ?_ ?_, fun name => ⟨fun same => ?_, fun both => ?_⟩, iff_of_false nofun ?_⟩
      · rintro ⟨fault, same, code⟩
        cases same
        exact absurd code (show "CIRCULAR_REF" ≠ "SYNTAX" by decide)
      · exact fun ⟨r, member, off⟩ => off (inside r member)
      · cases same
        exact ⟨rfl, inside, circle⟩
      · rw [both.1]
      · exact fun both => both.2 circle
  · rw [result]
    obtain ⟨inside, free⟩ := copied.inside formula held
    refine ⟨iff_of_false nofun ?_, fun name => iff_of_false nofun ?_, iff_of_true ⟨updates, rfl⟩
      ⟨inside, free⟩⟩
    · exact fun ⟨r, member, off⟩ => off (inside r member)
    · exact fun both => free both.2.2

theorem Copied.shown {next : Sheet} (copied : sheet.Copied a b next.cells) (intact : sheet.cells.Intact)
    (toDest : Address.ofName? dest = some a) (held : sheet.cells.formula? b = some formula) :
    next.cells.formula? a = some formula ∧
    (∀ p, p ≠ a → next.cells.content? p = sheet.cells.content? p) ∧
    formula.render a = .ok (next.query dest).text := by
  have formulas : next.cells.formula? a = some formula := by
    rw [copied.formulas, Function.update_self, held]
  refine ⟨formulas, fun p different => ?_, ?_⟩
  · refine copied.intact.proper.content?_eq_of_formula? intact.proper ?_
    rw [copied.formulas, Function.update_of_ne different]
  · obtain ⟨content, inner, same⟩ := formula?_eq_some_iff.1 formulas
    rw [text_query toDest, textOf_name inner, ← same]
    exact (copied.intact.proper.written_record inner).rendered

/-- In whatever a history has led to, a copy of a formula is refused when a reference would lead to no
cell with a name, or else when the formula would close a circle; otherwise the same formula stands in
the new cell, with its text there, and the other cells stay. A copy of an empty cell is a deletion. To
copy along a chain of cells is to copy directly, and to copy a cell to itself changes nothing. -/
theorem copy_moves_formula (history : List Operation) {dest source : String} {a b : Address}
    (toDest : Address.ofName? dest = some a) (fromSource : Address.ofName? source = some b) :
    (∀ formula, (after history).cells.formula? b = some formula →
      ((∃ fault, ((after history).copy dest source).1 = .error fault ∧ fault.code = "SYNTAX") ↔
        ∃ r ∈ formula.references, ¬ r.Lands a) ∧
      (∀ name, ((after history).copy dest source).1 = .error (.circular name) ↔
        name = a.name ∧ (∀ r ∈ formula.references, r.Lands a) ∧
          (after history).cells.ClosesCircle a formula) ∧
      ((∃ updates, ((after history).copy dest source).1 = .ok updates) ↔
        (∀ r ∈ formula.references, r.Lands a) ∧ ¬ (after history).cells.ClosesCircle a formula) ∧
      ∀ updates, ((after history).copy dest source).1 = .ok updates →
        ((after history).copy dest source).2.cells.formula? a = some formula ∧
        (∀ p, p ≠ a → ((after history).copy dest source).2.cells.content? p =
          (after history).cells.content? p) ∧
        formula.render a = .ok (((after history).copy dest source).2.query dest).text) ∧
    ((after history).cells.formula? b = none →
      (after history).copy dest source = (after history).delete dest ∧
        ∃ updates, ((after history).copy dest source).1 = .ok updates) ∧
    (∀ names, (after history).Succeeds (copies source (names ++ [dest])) →
      ((after history).run (copies source (names ++ [dest]))).cells.formula? a =
        (after history).cells.formula? b ∧
      ∀ updates, ((after history).copy dest source).1 = .ok updates →
        ((after history).run (copies source (names ++ [dest]))).cells.formula? a =
          ((after history).copy dest source).2.cells.formula? a) ∧
    (a = b → (∃ updates, ((after history).copy dest source).1 = .ok updates) ∧
      ((after history).copy dest source).2.cells = (after history).cells) := by
  have stable := after_stable history
  have intact := stable.now.intact
  refine ⟨fun formula held => ?_, fun empty => ?_, fun names succeeds => ?_, fun same => ?_⟩
  · obtain ⟨outside, circle, succeeds⟩ := copy_iff intact toDest fromSource held
    exact ⟨outside, circle, succeeds, fun updates done =>
      (copied_of_ok intact toDest fromSource done).shown intact toDest held⟩
  · have deletion := copy_of_empty toDest fromSource empty
    obtain ⟨updates, next, result, _⟩ := delete_cases intact dest
    exact ⟨deletion, updates, by rw [deletion, result]⟩
  · have brought := formula?_run_copies stable fromSource toDest succeeds
    refine ⟨brought, fun updates done => ?_⟩
    rw [brought, (copied_of_ok intact toDest fromSource done).formulas, Function.update_self]
  · subst same
    rcases copy_outcome intact toDest fromSource with
      ⟨formula, fault, held, refuses, _⟩ | ⟨updates, next, result, copied⟩
    · exact absurd refuses (not_refusesCopy_self intact held)
    · rw [result]
      exact ⟨⟨updates, rfl⟩, copied.eq_of_self intact⟩

theorem copy_moves_formula_by_way :
    ∃ history : List Operation, history = [.edit "b2" "$a1+min(c3*2,7)", .edit "a4" "2"] ∧
      Address.ofName? "$D$5" = some ⟨3, 4⟩ ∧ Address.ofName? "B2" = some ⟨1, 1⟩ ∧
      (after history).Succeeds (copies "B2" ["c7", "$D$5"]) ∧
      ((after history).run (copies "B2" ["c7", "$D$5"])).cells.formula? ⟨3, 4⟩ =
        (after history).cells.formula? ⟨1, 1⟩ := by
  have first : ((after [.edit "b2" "$a1+min(c3*2,7)", .edit "a4" "2"]).perform
      (.copy "c7" "B2")).1 = .ok [(⟨2, 6⟩, 0)] := by
    decide +kernel
  have second : (((after [.edit "b2" "$a1+min(c3*2,7)", .edit "a4" "2"]).perform
      (.copy "c7" "B2")).2.perform (.copy "$D$5" "c7")).1 = .ok [(⟨3, 4⟩, 2)] := by
    decide +kernel
  have succeeds : (after [.edit "b2" "$a1+min(c3*2,7)", .edit "a4" "2"]).Succeeds
      (copies "B2" ["c7", "$D$5"]) := ⟨⟨_, first⟩, ⟨_, second⟩, trivial⟩
  exact ⟨_, rfl, by decide +kernel, by decide +kernel, succeeds,
    ((copy_moves_formula _ (by decide +kernel) (by decide +kernel)).2.2.1 ["c7"] succeeds).1⟩

end Sheet

end Worksheet
