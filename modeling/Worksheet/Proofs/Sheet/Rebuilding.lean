import Worksheet.Proofs.Sheet.FromScratch
import Worksheet.Proofs.Sheet.Outcomes
import Worksheet.Proofs.Sheet.Representation

/-! Rebuilding. Cells at rest are determined by their formulas, and a listing has them all; so the
entries of a listing, replayed on a new sheet in whatever order, lead to the cells that were listed.
On the way the cells are a part of these, which is why no entry is refused. -/

namespace Worksheet

open Relation Cells

section

variable {cells others : Cells}

theorem Cells.Proper.content?_eq_of_formula? (one : cells.Proper) (two : others.Proper) {a : Address}
    (same : cells.formula? a = others.formula? a) : cells.content? a = others.content? a := by
  unfold formula? at same
  cases held : cells.content? a with
  | none =>
    rw [held] at same
    exact (Option.map_eq_none_iff.1 same.symm).symm
  | some content =>
    rw [held] at same
    obtain ⟨other, found, equal⟩ := Option.map_eq_some_iff.1 same.symm
    have rendered := (one.written_record held).rendered
    have again := (two.written_record found).rendered
    rw [equal, rendered] at again
    cases content
    cases other
    cases equal
    cases again
    exact found.symm

theorem Cells.Intact.record_eq_of_formula? (one : cells.Intact) (two : others.Intact)
    (same : cells.formula? = others.formula?) (a : Address) : cells.record a = others.record a := by
  have address : (cells.record a).address = (others.record a).address := by
    rw [one.proper.address_record, two.proper.address_record]
  have content : (cells.record a).content = (others.record a).content := by
    rw [← content?_eq, ← content?_eq,
      one.proper.content?_eq_of_formula? two.proper (congrFun same a)]
  have value : (cells.record a).value = (others.record a).value := by
    rw [← valueAt_eq, ← valueAt_eq]
    exact (two.valueAt_of_computes (same ▸ one.computes a)).symm
  have readers : (cells.record a).readers = (others.record a).readers := by
    rw [← readers_eq, ← readers_eq]
    refine Std.ExtTreeSet.ext_mem fun name => ?_
    rw [one.told, two.told, same]
  generalize cells.record a = cell at address content value readers
  generalize others.record a = other at address content value readers
  cases cell
  cases other
  cases address
  cases content
  cases value
  cases readers
  rfl

theorem Cells.Intact.getElem?_of_formula? (one : cells.Intact) (two : others.Intact)
    (same : cells.formula? = others.formula?) {name : String} {cell : Cell}
    (held : cells[name]? = some cell) : others[name]? = some cell := by
  have proper := one.proper name cell held
  have named := proper.named
  subst named
  have record : others.record cell.address = cell := by
    rw [← one.record_eq_of_formula? two same, record_of_some held]
  -- The others would have a blank record there if they had none, and nobody keeps a blank one.
  rcases two.proper.record_or_blank cell.address with ⟨_, blank⟩ | ⟨found, _⟩
  · have idle : cell.isIdle = true := by
      rw [← record, blank]
      rfl
    rw [proper.busy] at idle
    cases idle
  · rw [found, record]

/-- Cells at rest with the same formulas are the same in every record. -/
theorem Cells.Intact.eq_of_formula? (one : cells.Intact) (two : others.Intact)
    (same : cells.formula? = others.formula?) : cells = others := by
  refine Std.ExtTreeMap.ext_getElem? fun name => Option.ext fun cell => ⟨fun held => ?_, fun held => ?_⟩
  · exact one.getElem?_of_formula? two same held
  · exact two.getElem?_of_formula? one same.symm held

end

/-! A listing has every formula once. -/

theorem Dependencies.perm_split (left : Dependencies) :
    (left.split.1.names ++ left.split.2.names).Perm left.names := by
  unfold split names
  rw [← List.map_append, List.partition_eq_filter_filter]
  exact List.Perm.map _ (List.filter_append_perm _ left)

theorem Dependencies.perm_layers (left : Dependencies) : left.layers.flatten.Perm left.names := by
  induction left using layers.induct with
  | case1 left smaller ih =>
    rw [layers, dif_pos smaller, List.flatten_cons]
    exact (List.Perm.append_left _ ih).trans left.perm_split
  | case2 left same empty =>
    rw [layers, dif_neg same, if_pos empty]
    rw [List.isEmpty_iff.1 empty]
    exact .refl _
  | case3 left same filled =>
    rw [layers, dif_neg same, if_neg filled, List.flatten_singleton]

theorem Cells.names_dependencies (cells : Cells) :
    Dependencies.names cells.dependencies = cells.formulaNames := by
  unfold dependencies Dependencies.names
  rw [List.map_map]
  exact List.map_id _

theorem Cells.perm_listed (cells : Cells) : cells.listed.Perm cells.formulaNames := by
  unfold listed
  exact cells.names_dependencies ▸ cells.dependencies.perm_layers

section

variable {cells whole part : Cells} {entry : String × String}

def Cells.Lists (cells : Cells) (entry : String × String) : Prop :=
  ∃ a content, cells.content? a = some content ∧ entry = (a.name, content.text)

theorem Cells.textOf_name {a : Address} {content : Content}
    (held : cells.content? a = some content) : cells.textOf a.name = content.text := by
  unfold content? at held
  unfold textOf
  rw [held]

theorem Cells.Proper.mem_listing (proper : cells.Proper) : entry ∈ cells.listing ↔ cells.Lists entry := by
  unfold listing
  rw [List.mem_map]
  constructor
  · intro found
    obtain ⟨name, member, rfl⟩ := found
    obtain ⟨a, found⟩ := mem_formulaNames.1 (cells.perm_listed.mem_iff.1 member)
    obtain ⟨rfl, content, held⟩ := proper.formulaAt?_eq_some_iff.1 found
    exact ⟨a, content, held, by rw [textOf_name held]⟩
  · intro lists
    obtain ⟨a, content, held, rfl⟩ := lists
    refine ⟨a.name, cells.perm_listed.mem_iff.2 (mem_formulaNames.2 ⟨a, ?_⟩), ?_⟩
    · exact proper.formulaAt?_eq_some_iff.2 ⟨rfl, content, held⟩
    · rw [textOf_name held]

/-- Cells whose formulas are among those of `whole`. -/
def Cells.PartOf (part whole : Cells) : Prop :=
  ∀ a formula, part.formula? a = some formula → whole.formula? a = some formula

theorem Cells.partOf_empty (whole : Cells) : Cells.PartOf ∅ whole := by
  intro a formula held
  unfold formula? content? at held
  rw [Std.ExtTreeMap.getElem?_empty] at held
  cases held

theorem Cells.PartOf.antisymm (one : part.PartOf whole) (other : whole.PartOf part) :
    part.formula? = whole.formula? :=
  funext fun a => Option.ext fun formula => ⟨one a formula, other a formula⟩

theorem Cells.PartOf.update {next : Cells} {a : Address} {formula : Formula}
    (within : part.PartOf whole) (held : whole.formula? a = some formula)
    (formulas : next.formula? = Function.update part.formula? a (some formula)) :
    next.PartOf whole := by
  intro c other found
  rw [formulas] at found
  by_cases same : c = a
  · subst same
    rw [Function.update_self] at found
    exact found ▸ held
  · rw [Function.update_of_ne same] at found
    exact within c other found

theorem Cells.PartOf.not_closesCircle {a : Address} {formula : Formula} (within : part.PartOf whole)
    (acyclic : ∀ c, ¬ TransGen (Reads whole.formula?) c c)
    (held : whole.formula? a = some formula) : ¬ part.ClosesCircle a formula := by
  intro circle
  refine acyclic a (TransGen.mono (fun c p reads => ?_) a a circle)
  obtain ⟨other, found, read⟩ := reads
  by_cases same : c = a
  · subst same
    rw [Function.update_self] at found
    exact ⟨other, found ▸ held, read⟩
  · rw [Function.update_of_ne same] at found
    exact ⟨other, within c other found, read⟩

end

namespace Sheet

variable {sheet : Sheet} {whole : Cells}

/-- What the whole shows in a cell is accepted by a part of it, under any name of the cell. -/
theorem edit_partOf (stable : sheet.cells.Stable) (complete : whole.Stable)
    (within : sheet.cells.PartOf whole) {cell : String} {a : Address}
    (named : Address.ofName? cell = some a) {content : Content}
    (held : whole.content? a = some content) :
    ∃ updates next, sheet.edit cell content.text = (.ok updates, next) ∧ next.cells.Stable ∧
      next.cells.formula? = Function.update sheet.cells.formula? a (some content.formula) := by
  have formula := formula?_eq_some_iff.2 ⟨content, held, rfl⟩
  have read := (complete.intact.proper.written_record held).read
  rcases edit_cases stable.intact cell content.text with
    ⟨fault, refuses, _⟩ | ⟨c, other, updates, next, edited, result⟩
  · exact absurd (refuses.not_accepted named read)
      (within.not_closesCircle complete.intact.acyclic formula)
  · cases named.symm.trans edited.named
    cases read.symm.trans edited.read
    exact ⟨updates, next, result,
      stable.update (complete.nameable a _ formula) edited.intact edited.formulas, edited.formulas⟩

/-- Entries of the whole that are replayed on a part of it add their formulas. -/
theorem replayFrom_partOf (stable : sheet.cells.Stable) (complete : whole.Stable)
    (within : sheet.cells.PartOf whole) (updates : Updates) {entries : List (String × String)}
    (listed : ∀ entry ∈ entries, whole.Lists entry) :
    ∃ all next, sheet.replayFrom updates entries = (.ok all, next) ∧ next.cells.Stable ∧
      next.cells.PartOf whole ∧ ∀ a content, whole.content? a = some content →
        (a.name, content.text) ∈ entries ∨ sheet.cells.formula? a = some content.formula →
          next.cells.formula? a = some content.formula := by
  induction entries generalizing sheet updates with
  | nil =>
    refine ⟨updates, sheet, rfl, stable, within, fun a content held found => ?_⟩
    exact found.resolve_left List.not_mem_nil
  | cons entry rest ih =>
    obtain ⟨a, content, held, rfl⟩ := listed entry List.mem_cons_self
    have formula := formula?_eq_some_iff.2 ⟨content, held, rfl⟩
    have named := Address.ofName?_name (complete.nameable a _ formula)
    obtain ⟨later, next, result, stable', formulas⟩ := edit_partOf stable complete within named held
    have within' := within.update formula formulas
    obtain ⟨all, last, replayed, stable'', within'', covers⟩ := ih stable' within' (updates.merge later)
      fun entry member => listed entry (List.mem_cons_of_mem _ member)
    refine ⟨all, last, ?_, stable'', within'', fun c other found was => covers c other found ?_⟩
    · unfold replayFrom
      simp only [result]
      exact replayed
    -- An entry may come twice: the formula that it puts in is the one that is there.
    · by_cases same : c = a
      · subst same
        cases held.symm.trans found
        exact .inr (by rw [formulas, Function.update_self])
      · rcases was with member | old
        · rcases List.mem_cons.1 member with head | tail
          · exact absurd (Address.name_injective (congrArg Prod.fst head)) same
          · exact .inl tail
        · exact .inr (by rw [formulas, Function.update_of_ne same, old])

theorem replay_partOf (stable : sheet.cells.Stable) (complete : whole.Stable)
    (within : sheet.cells.PartOf whole) {entries : List (String × String)}
    (listed : ∀ entry ∈ entries, whole.Lists entry)
    (covered : ∀ a content, whole.content? a = some content →
      (a.name, content.text) ∈ entries ∨ sheet.cells.formula? a = some content.formula) :
    ∃ updates next, sheet.replay entries = (.ok updates, next) ∧ next.cells = whole := by
  obtain ⟨updates, next, replayed, stable', within', covers⟩ :=
    replayFrom_partOf stable complete within [] listed
  refine ⟨updates, next, replayed, stable'.intact.eq_of_formula? complete.intact (within'.antisymm ?_)⟩
  intro a formula held
  obtain ⟨content, found, rfl⟩ := formula?_eq_some_iff.1 held
  exact covers a content found (covered a content found)

theorem replay_of_lists (complete : whole.Stable) {entries : List (String × String)}
    (listed : ∀ entry, entry ∈ entries ↔ whole.Lists entry) :
    ∃ updates next, empty.replay entries = (.ok updates, next) ∧ next.cells = whole :=
  replay_partOf Cells.stable_empty complete (Cells.partOf_empty whole)
    (fun entry member => (listed entry).1 member)
    fun a content found => .inl ((listed _).2 ⟨a, content, found, rfl⟩)

theorem replay_listing {sheet : Sheet} (stable : sheet.cells.Stable) :
    ∃ updates next, empty.replay sheet.listing = (.ok updates, next) ∧ next.cells = sheet.cells :=
  replay_of_lists stable fun _ => stable.intact.proper.mem_listing

theorem empty_listing : empty.listing = [] := by
  unfold listing Cells.listing
  rw [List.map_eq_nil_iff]
  exact (Cells.perm_listed ∅).eq_nil

/-! A replay entry by entry. -/

def edits (entries : List (String × String)) : List Operation :=
  entries.map fun entry => .edit entry.1 entry.2

def Accepts (sheet : Sheet) : List (String × String) → Prop
  | [] => True
  | (cell, text) :: rest =>
      (∃ updates, (sheet.edit cell text).1 = .ok updates) ∧ (sheet.edit cell text).2.Accepts rest

def RefusesEntry (sheet : Sheet) (entries : List (String × String)) (fault : Fault) : Prop :=
  ∃ front cell text rest, entries = front ++ (cell, text) :: rest ∧ sheet.Accepts front ∧
    ((sheet.run (edits front)).edit cell text).1 = .error fault

section

variable {cell text : String} {entries front rest : List (String × String)}
  {updates later : Updates} {fault : Fault}

theorem replayFrom_cons_of_ok (done : (sheet.edit cell text).1 = .ok later) :
    sheet.replayFrom updates ((cell, text) :: rest) =
      (sheet.edit cell text).2.replayFrom (updates.merge later) rest := by
  conv_lhs => unfold replayFrom
  split
  next result =>
    rw [result] at done ⊢
    cases done
    rfl
  next result =>
    rw [result] at done
    cases done

theorem replayFrom_cons_of_error (refused : (sheet.edit cell text).1 = .error fault) :
    (sheet.replayFrom updates ((cell, text) :: rest)).1 = .error fault := by
  unfold replayFrom
  split
  next result =>
    rw [result] at refused
    cases refused
  next result =>
    rw [result] at refused
    exact refused

theorem Accepts.replayFrom_append (accepted : sheet.Accepts front) (updates : Updates)
    (rest : List (String × String)) :
    ∃ all, sheet.replayFrom updates (front ++ rest) =
      (sheet.run (edits front)).replayFrom all rest := by
  induction front generalizing sheet updates with
  | nil => exact ⟨updates, rfl⟩
  | cons entry front ih =>
    obtain ⟨⟨later, done⟩, accepted⟩ := accepted
    obtain ⟨all, same⟩ := ih accepted (updates.merge later)
    exact ⟨all, (replayFrom_cons_of_ok done).trans same⟩

theorem Accepts.replayFrom (accepted : sheet.Accepts entries) (updates : Updates) :
    ∃ all, sheet.replayFrom updates entries = (.ok all, sheet.run (edits entries)) := by
  obtain ⟨all, same⟩ := accepted.replayFrom_append updates []
  rw [List.append_nil] at same
  exact ⟨all, same⟩

theorem RefusesEntry.replayFrom (refuses : sheet.RefusesEntry entries fault) (updates : Updates) :
    (sheet.replayFrom updates entries).1 = .error fault := by
  obtain ⟨front, cell, text, rest, rfl, accepted, refused⟩ := refuses
  obtain ⟨all, same⟩ := accepted.replayFrom_append updates ((cell, text) :: rest)
  rw [same]
  exact replayFrom_cons_of_error refused

theorem accepts_or_refuses (sheet : Sheet) (entries : List (String × String)) :
    sheet.Accepts entries ∨ ∃ fault, sheet.RefusesEntry entries fault := by
  induction entries generalizing sheet with
  | nil => exact .inl trivial
  | cons entry rest ih =>
    obtain ⟨cell, text⟩ := entry
    cases done : (sheet.edit cell text).1 with
    | error fault => exact .inr ⟨fault, [], cell, text, rest, rfl, trivial, done⟩
    | ok updates =>
      rcases ih (sheet.edit cell text).2 with accepted | ⟨fault, front, later, formula, behind, same,
        accepted, refused⟩
      · exact .inl ⟨⟨updates, done⟩, accepted⟩
      · refine .inr ⟨fault, (cell, text) :: front, later, formula, behind, ?_, ⟨⟨updates, done⟩, accepted⟩,
          refused⟩
        rw [same, List.cons_append]

theorem replayFrom_eq_ok_iff {next : Sheet} :
    (∃ all, sheet.replayFrom updates entries = (.ok all, next)) ↔
      sheet.Accepts entries ∧ sheet.run (edits entries) = next := by
  constructor
  · rintro ⟨all, result⟩
    rcases sheet.accepts_or_refuses entries with accepted | ⟨fault, refuses⟩
    · obtain ⟨_, made⟩ := accepted.replayFrom updates
      cases result.symm.trans made
      exact ⟨accepted, rfl⟩
    · have failed := refuses.replayFrom updates
      rw [result] at failed
      cases failed
  · rintro ⟨accepted, rfl⟩
    exact accepted.replayFrom updates

theorem replayFrom_eq_error_iff :
    (sheet.replayFrom updates entries).1 = .error fault ↔ sheet.RefusesEntry entries fault := by
  refine ⟨fun failed => ?_, fun refuses => refuses.replayFrom updates⟩
  rcases sheet.accepts_or_refuses entries with accepted | ⟨other, refuses⟩
  · obtain ⟨all, made⟩ := accepted.replayFrom updates
    rw [made] at failed
    cases failed
  · cases (refuses.replayFrom updates).symm.trans failed
    exact refuses

end

/-- The entries of a listing, edited into a new sheet in any order, are all accepted, and they make the
cells that were listed, in every record. -/
theorem rebuilt_of_perm_listing (history : List Operation) {entries : List (String × String)}
    (perm : entries.Perm (after history).listing) :
    empty.Accepts entries ∧ (after (edits entries)).cells = (after history).cells := by
  have stable := (after_stable history).now
  obtain ⟨updates, next, replayed, same⟩ := replay_of_lists stable fun entry =>
    perm.mem_iff.trans stable.intact.proper.mem_listing
  obtain ⟨accepted, made⟩ := replayFrom_eq_ok_iff.1 ⟨updates, replayed⟩
  refine ⟨accepted, ?_⟩
  change (empty.run (edits entries)).cells = _
  rw [made, same]

theorem rebuilt_of_readers_first :
    ∃ (history : List Operation) (entries : List (String × String)),
      history = [.edit "b1" "a1+d9", .edit "a1" "7", .edit "e5" "$B$1/a1", .copy "C1" "b1",
        .edit "d9" "c1", .delete "e5", .edit "a1" "2"] ∧
      entries = [("c1", "b1+e9"), ("b1", "a1+d9"), ("a1", "2")] ∧
      entries.Perm (after history).listing ∧
      empty.Accepts entries ∧ (after (edits entries)).cells = (after history).cells := by
  refine ⟨_, _, rfl, rfl, ?perm, rebuilt_of_perm_listing _ ?perm⟩
  decide +kernel

end Sheet

end Worksheet
