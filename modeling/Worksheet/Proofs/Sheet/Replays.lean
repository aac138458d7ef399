import Worksheet.Proofs.Sheet.Affected
import Worksheet.Proofs.Sheet.Independence

/-! Replays. The updates of an edit account for all that it changes, and so do the merged updates of edits
in a row: a cell that a later edit changes again is told with its last value. Of the entries for one cell
the last one counts. What a sheet shows itself can be entered again, one cell or all of them, and changes
nothing. -/

namespace Worksheet

open Relation Cells

namespace Updates

variable {updates later : Updates} {p : Address}

theorem mem_keys_merge : p ∈ (updates.merge later).keys ↔ p ∈ updates.keys ∨ p ∈ later.keys := by
  induction later generalizing updates with
  | nil => exact (or_iff_left List.not_mem_nil).symm
  | cons entry rest ih =>
    change p ∈ ((updates.record entry.1 entry.2).merge rest).keys ↔ _
    rw [ih, mem_keys_record, keys_cons, List.mem_cons, or_assoc]

theorem nodup_keys_merge (distinct : updates.keys.Nodup) : (updates.merge later).keys.Nodup := by
  induction later generalizing updates with
  | nil => exact distinct
  | cons entry rest ih => exact ih (nodup_keys_record distinct)

theorem mem_merge (distinct : updates.keys.Nodup) {entry : Address × Float}
    (member : entry ∈ updates.merge later) :
    entry ∈ later ∨ entry ∈ updates ∧ entry.1 ∉ later.keys := by
  induction later generalizing updates with
  | nil => exact .inr ⟨member, List.not_mem_nil⟩
  | cons head rest ih =>
    rcases ih (nodup_keys_record distinct) member with found | ⟨recorded, absent⟩
    · exact .inl (List.mem_cons_of_mem head found)
    · rcases mem_record distinct recorded with same | ⟨old, different⟩
      · exact .inl (same ▸ List.mem_cons_self)
      · refine .inr ⟨old, fun met => ?_⟩
        rw [keys_cons, List.mem_cons] at met
        exact met.elim different absent

/-- Updates that account for the way from the cells `before` to the cells `after`: they tell of formula
cells, of each one once and with the value that it has in the end, and whatever they do not tell of is as
it was. -/
structure AccountsFor (before after : Cells) (updates : Updates) : Prop where
  distinct : updates.keys.Nodup
  held : ∀ p ∈ updates.keys, ∃ formula, after.formula? p = some formula
  value : ∀ entry ∈ updates, after.valueAt entry.1 = entry.2
  others : ∀ p, p ∉ updates.keys →
    after.content? p = before.content? p ∧ after.valueAt p = before.valueAt p

theorem accountsFor_nil (cells : Cells) : AccountsFor cells cells [] :=
  ⟨List.nodup_nil, fun _ never => absurd never List.not_mem_nil,
    fun _ never => absurd never List.not_mem_nil, fun _ _ => ⟨rfl, rfl⟩⟩

theorem AccountsFor.merge {before mid after : Cells} (first : updates.AccountsFor before mid)
    (second : later.AccountsFor mid after) : (updates.merge later).AccountsFor before after := by
  refine ⟨nodup_keys_merge first.distinct, fun p told => ?_, fun entry member => ?_,
    fun p absent => ?_⟩
  · -- what the later updates leave out is as the earlier ones left it
    by_cases last : p ∈ later.keys
    · exact second.held p last
    · obtain ⟨formula, held⟩ := first.held p ((mem_keys_merge.1 told).resolve_right last)
      refine ⟨formula, ?_⟩
      unfold formula? at held ⊢
      rw [(second.others p last).1, held]
  · rcases mem_merge first.distinct member with last | ⟨early, absent⟩
    · exact second.value entry last
    · rw [(second.others entry.1 absent).2]
      exact first.value entry early
  · rw [mem_keys_merge, not_or] at absent
    obtain ⟨content, value⟩ := first.others p absent.1
    obtain ⟨content', value'⟩ := second.others p absent.2
    exact ⟨content'.trans content, value'.trans value⟩

end Updates

/-- The last of the entries that name `a` has this text. -/
def LastFor (entries : List (String × String)) (a : Address) (text : String) : Prop :=
  ∃ front cell rest, entries = front ++ (cell, text) :: rest ∧ Address.ofName? cell = some a ∧
    ∀ entry ∈ rest, Address.ofName? entry.1 ≠ some a

theorem lastFor_cons_iff {cell text last : String} {rest : List (String × String)} {a : Address} :
    LastFor ((cell, text) :: rest) a last ↔
      LastFor rest a last ∨ text = last ∧ Address.ofName? cell = some a ∧
        ∀ entry ∈ rest, Address.ofName? entry.1 ≠ some a := by
  constructor
  · rintro ⟨front, name, behind, same, named, nowhere⟩
    cases front with
    | nil =>
      cases same
      exact .inr ⟨rfl, named, nowhere⟩
    | cons head front =>
      cases same
      exact .inl ⟨front, name, behind, rfl, named, nowhere⟩
  · rintro (⟨front, name, behind, rfl, named, nowhere⟩ | ⟨rfl, named, nowhere⟩)
    · exact ⟨(cell, text) :: front, name, behind, rfl, named, nowhere⟩
    · exact ⟨[], cell, rest, rfl, named, nowhere⟩

theorem exists_lastFor {entries : List (String × String)} {a : Address}
    (named : ∃ entry ∈ entries, Address.ofName? entry.1 = some a) : ∃ text, LastFor entries a text := by
  induction entries with
  | nil => exact named.elim fun _ never => absurd never.1 List.not_mem_nil
  | cons entry rest ih =>
    obtain ⟨cell, text⟩ := entry
    by_cases later : ∃ other ∈ rest, Address.ofName? other.1 = some a
    · exact (ih later).imp fun last found => lastFor_cons_iff.2 (.inl found)
    · have nowhere : ∀ other ∈ rest, Address.ofName? other.1 ≠ some a :=
        fun other member found => later ⟨other, member, found⟩
      obtain ⟨entry, member, found⟩ := named
      rcases List.mem_cons.1 member with rfl | behind
      · exact ⟨text, lastFor_cons_iff.2 (.inr ⟨rfl, found, nowhere⟩)⟩
      · exact absurd found (nowhere entry behind)

namespace Sheet

variable {sheet next : Sheet} {cell text : String} {entries : List (String × String)}
  {updates all : Updates} {a : Address}

theorem edited_of_ok (intact : sheet.cells.Intact) (done : (sheet.edit cell text).1 = .ok updates) :
    ∃ a formula, sheet.Edited cell text a formula (sheet.edit cell text).2 := by
  rcases edit_cases intact cell text with
    ⟨fault, _, result⟩ | ⟨a, formula, updates, next, edited, result⟩
  · rw [result] at done
    cases done
  · rw [result]
    exact ⟨a, formula, edited⟩

theorem edit_accountsFor (stable : sheet.Stable) (done : (sheet.edit cell text).1 = .ok updates) :
    updates.AccountsFor sheet.cells (sheet.edit cell text).2.cells := by
  obtain ⟨a, found, installed⟩ := edit_reports stable done
  obtain ⟨b, formula, edited⟩ := edited_of_ok stable.now.intact done
  cases found.symm.trans edited.named
  have after : (sheet.edit cell text).2.Stable := stable.perform (.edit cell text)
  have held : ∀ p ∈ updates.keys, ∃ formula, (sheet.edit cell text).2.cells.formula? p = some formula := by
    intro p told
    rcases ReflTransGen.cases_head ((installed.keys p).1 told) with same | ⟨_, reads, _⟩
    · exact ⟨formula, by rw [same, edited.formulas, Function.update_self]⟩
    · exact reads.imp fun _ both => both.1
  refine ⟨installed.reports.distinct, held, fun entry member => ?_, fun p absent => ?_⟩
  · obtain ⟨_, inside⟩ := held entry.1 (List.mem_map_of_mem member)
    rw [← value_query (Address.ofName?_name (after.now.nameable _ _ inside))]
    exact installed.reports.value entry member
  · refine installed.reports.others p absent fun same => absent ?_
    exact (installed.keys p).2 (same ▸ .refl)

theorem replayFrom_accountsFor {start : Cells} (stable : sheet.Stable)
    (accounts : updates.AccountsFor start sheet.cells)
    (replayed : sheet.replayFrom updates entries = (.ok all, next)) :
    all.AccountsFor start next.cells := by
  induction entries generalizing sheet updates with
  | nil =>
    cases replayed
    exact accounts
  | cons entry rest ih =>
    obtain ⟨cell, text⟩ := entry
    cases done : (sheet.edit cell text).1 with
    | error fault =>
      have failed : (sheet.replayFrom updates ((cell, text) :: rest)).1 = .error fault :=
        replayFrom_cons_of_error done
      rw [replayed] at failed
      cases failed
    | ok later =>
      rw [replayFrom_cons_of_ok done] at replayed
      exact ih (stable.perform (.edit cell text)) (accounts.merge (edit_accountsFor stable done)) replayed

theorem Accepts.formula?_of_unnamed (accepted : sheet.Accepts entries) (stable : sheet.Stable)
    (unnamed : ∀ entry ∈ entries, Address.ofName? entry.1 ≠ some a) :
    (sheet.run (edits entries)).cells.formula? a = sheet.cells.formula? a := by
  induction entries generalizing sheet with
  | nil => rfl
  | cons entry rest ih =>
    obtain ⟨⟨updates, done⟩, accepted⟩ := accepted
    obtain ⟨b, formula, edited⟩ := edited_of_ok stable.now.intact done
    have different : a ≠ b := fun same => unnamed entry List.mem_cons_self (same ▸ edited.named)
    refine (ih accepted (stable.perform (.edit entry.1 entry.2)) fun other member =>
      unnamed other (List.mem_cons_of_mem entry member)).trans ?_
    rw [edited.formulas, Function.update_of_ne different]

theorem Accepts.formula?_of_lastFor (accepted : sheet.Accepts entries) (stable : sheet.Stable)
    (last : LastFor entries a text) :
    ∃ formula, Formula.read a text = .ok formula ∧
      (sheet.run (edits entries)).cells.formula? a = some formula := by
  induction entries generalizing sheet with
  | nil =>
    obtain ⟨front, cell, rest, same, _⟩ := last
    exact absurd same.symm (List.append_ne_nil_of_right_ne_nil front (List.cons_ne_nil _ rest))
  | cons entry rest ih =>
    obtain ⟨⟨updates, done⟩, accepted⟩ := accepted
    have onward := stable.perform (.edit entry.1 entry.2)
    -- No entry behind the last one for `a` touches its formula.
    rcases lastFor_cons_iff.1 last with later | ⟨rfl, named, nowhere⟩
    · exact ih accepted onward later
    · obtain ⟨b, formula, edited⟩ := edited_of_ok stable.now.intact done
      cases named.symm.trans edited.named
      refine ⟨formula, edited.read, (accepted.formula?_of_unnamed onward nowhere).trans ?_⟩
      rw [edited.formulas, Function.update_self]

theorem Accepts.named (accepted : sheet.Accepts entries) (stable : sheet.Stable) :
    ∀ entry ∈ entries, ∃ a, Address.ofName? entry.1 = some a := by
  induction entries generalizing sheet with
  | nil => exact fun _ never => absurd never List.not_mem_nil
  | cons entry rest ih =>
    obtain ⟨⟨updates, done⟩, accepted⟩ := accepted
    obtain ⟨b, formula, edited⟩ := edited_of_ok stable.now.intact done
    intro other member
    rcases List.mem_cons.1 member with rfl | later
    · exact ⟨b, edited.named⟩
    · exact ih accepted (stable.perform (.edit entry.1 entry.2)) other later

/-! What a sheet shows is entered again. -/

structure Reentered (sheet next : Sheet) (a : Address) (updates : Updates) : Prop where
  same : next.cells = sheet.cells
  distinct : updates.keys.Nodup
  keys : ∀ p, p ∈ updates.keys ↔ ReflTransGen (Reads sheet.cells.formula?) p a
  value : ∀ entry ∈ updates, (sheet.query entry.1.name).value = entry.2

theorem edit_shown (stable : sheet.Stable) (named : Address.ofName? cell = some a) {formula : Formula}
    (held : sheet.cells.formula? a = some formula) :
    ∃ updates, (sheet.edit cell (sheet.query cell).text).1 = .ok updates ∧
      sheet.Reentered (sheet.edit cell (sheet.query cell).text).2 a updates := by
  obtain ⟨content, inner, rfl⟩ := formula?_eq_some_iff.1 held
  have within : sheet.cells.PartOf sheet.cells := fun _ _ found => found
  rw [text_query named, textOf_name inner]
  obtain ⟨updates, next, result, complete, formulas⟩ :=
    edit_partOf stable.now stable.now within named inner
  rw [← held, Function.update_eq_self] at formulas
  have same := complete.intact.eq_of_formula? stable.now.intact formulas
  obtain ⟨c, found, installed⟩ := edit_reports stable (congrArg Prod.fst result)
  cases named.symm.trans found
  rw [result] at installed ⊢
  refine ⟨updates, rfl, same, installed.reports.distinct, fun p => ?_, fun entry member => ?_⟩
  · rw [installed.keys, same]
  · rw [← installed.reports.value entry member, query_congr same]

/-- The entries of a listing are replayed into the very sheet, in any order, without an effect. -/
theorem replay_own (stable : sheet.Stable) (perm : entries.Perm sheet.listing) :
    ∃ updates next, sheet.replay entries = (.ok updates, next) ∧ next.cells = sheet.cells := by
  have listed : ∀ entry ∈ entries, sheet.cells.Lists entry :=
    fun entry member => stable.now.intact.proper.mem_listing.1 (perm.mem_iff.1 member)
  refine replay_partOf stable.now stable.now (fun _ _ found => found) listed fun p content held => ?_
  exact .inr (formula?_eq_some_iff.2 ⟨content, held, rfl⟩)

end Sheet

end Worksheet
