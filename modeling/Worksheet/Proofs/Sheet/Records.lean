import Worksheet.Proofs.Reading
import Worksheet.Sheet.Draft

/-! Records of cells, and what each change of a draft does to them. A record stands under the name of
its cell, holds zero and tells at least one reader when it holds no formula, and holds the text of its
formula otherwise; every change keeps that. -/

namespace Worksheet

structure Content.Written (content : Content) (a : Address) : Prop where
  wellFormed : content.formula.WellFormed a
  rendered : content.formula.render a = .ok content.text

structure Cell.Proper (cell : Cell) (name : String) : Prop where
  named : name = cell.address.name
  zero : cell.content = none → cell.value = 0
  busy : cell.isIdle = false
  written : ∀ content, cell.content = some content → content.Written cell.address

def Cells.Proper (cells : Cells) : Prop :=
  ∀ (name : String) (cell : Cell), cells[name]? = some cell → cell.Proper name

/-- The record stands under the name of its cell, and the operators of its formula have their operands. Nothing is
said of its readers, nor of where its formula leads. -/
structure Cell.Keyed (cell : Cell) (name : String) : Prop where
  named : name = cell.address.name
  applied : ∀ content, cell.content = some content → content.formula.Applied

def Cells.Keyed (cells : Cells) : Prop :=
  ∀ (name : String) (cell : Cell), cells[name]? = some cell → cell.Keyed name

namespace Cell

def withReader (cell : Cell) (name : String) : Cell :=
  { cell with readers := cell.readers.insert name }

def withoutReader (cell : Cell) (name : String) : Cell :=
  { cell with readers := cell.readers.erase name }

def withContent (cell : Cell) (content : Content) : Cell := { cell with content := some content }

def withValue (cell : Cell) (value : Float) : Cell := { cell with value := value }

theorem isIdle_eq_false_iff (cell : Cell) :
    cell.isIdle = false ↔ (∃ content, cell.content = some content) ∨ ∃ name, name ∈ cell.readers := by
  unfold isIdle
  rw [Bool.and_eq_false_iff, Option.isNone_eq_false_iff, Option.isSome_iff_exists]
  apply or_congr_right
  rw [Bool.eq_false_iff, Ne, Std.ExtTreeSet.isEmpty_iff, Std.ExtTreeSet.eq_empty_iff_forall_not_mem]
  exact not_forall_not

theorem eq_blank_of_isIdle {cell : Cell} (a : Address) (idle : cell.isIdle = true)
    (home : cell.address = a) (zero : cell.content = none → cell.value = 0) : cell = blank a := by
  unfold isIdle at idle
  rw [Bool.and_eq_true, Option.isNone_iff_eq_none, Std.ExtTreeSet.isEmpty_iff] at idle
  obtain ⟨empty, unread⟩ := idle
  have value := zero empty
  cases cell
  simp only at home empty unread value
  rw [home, empty, unread, value]
  rfl

end Cell

namespace Cells

def record (cells : Cells) (a : Address) : Cell := cells[a.name]?.getD (.blank a)

variable {cells : Cells}

theorem record_of_some {a : Address} {cell : Cell} (held : cells[a.name]? = some cell) :
    cells.record a = cell := by
  unfold record
  rw [held]
  rfl

theorem record_of_none {a : Address} (absent : cells[a.name]? = none) :
    cells.record a = .blank a := by
  unfold record
  rw [absent]
  rfl

theorem content?_eq (cells : Cells) (a : Address) : cells.content? a = (cells.record a).content := by
  unfold content?
  cases held : cells[a.name]? with
  | none => rw [record_of_none held]; rfl
  | some cell => rw [record_of_some held]; rfl

theorem valueAt_eq (cells : Cells) (a : Address) : cells.valueAt a = (cells.record a).value := by
  unfold valueAt
  cases held : cells[a.name]? with
  | none => rw [record_of_none held]; rfl
  | some cell => rw [record_of_some held]

theorem readers_eq (cells : Cells) (a : Address) : cells.readers a = (cells.record a).readers := by
  unfold readers
  cases held : cells[a.name]? with
  | none => rw [record_of_none held]; rfl
  | some cell => rw [record_of_some held]

theorem Keyed.record (keyed : cells.Keyed) (a : Address) : (cells.record a).Keyed a.name := by
  cases held : cells[a.name]? with
  | none =>
    rw [record_of_none held]
    exact ⟨rfl, nofun⟩
  | some cell =>
    rw [record_of_some held]
    exact keyed a.name cell held

theorem Keyed.applied_of_content? (keyed : cells.Keyed) {a : Address} {content : Content}
    (held : cells.content? a = some content) : content.formula.Applied := by
  rw [content?_eq] at held
  exact (keyed.record a).applied content held

theorem Keyed.formulaAt?_eq_some_iff (keyed : cells.Keyed) {name : String} {a : Address} :
    cells.formulaAt? name = some a ↔ a.name = name ∧ ∃ content, cells.content? a = some content := by
  unfold formulaAt? content?
  constructor
  · intro found
    obtain ⟨cell, held, found⟩ := Option.bind_eq_some_iff.1 found
    obtain ⟨content, inner, home⟩ := Option.map_eq_some_iff.1 found
    have named := (keyed name cell held).named
    rw [home] at named
    refine ⟨named.symm, content, ?_⟩
    rw [← named, held]
    exact inner
  · intro found
    obtain ⟨rfl, content, found⟩ := found
    obtain ⟨cell, held, inner⟩ := Option.bind_eq_some_iff.1 found
    have home := Address.name_injective (keyed a.name cell held).named
    rw [held, Option.bind_some, inner, Option.map_some, home]

theorem Proper.keyed (proper : cells.Proper) : cells.Keyed := by
  intro name cell held
  have fine := proper name cell held
  exact ⟨fine.named, fun content inner => (fine.written content inner).wellFormed.applied⟩

theorem Proper.record_or_blank (proper : cells.Proper) (a : Address) :
    (cells[a.name]? = none ∧ cells.record a = .blank a) ∨
      (cells[a.name]? = some (cells.record a) ∧ (cells.record a).Proper a.name) := by
  cases held : cells[a.name]? with
  | none => exact .inl ⟨rfl, record_of_none held⟩
  | some cell =>
    rw [record_of_some held]
    exact .inr ⟨rfl, proper a.name cell held⟩

theorem Proper.address_record (proper : cells.Proper) (a : Address) :
    (cells.record a).address = a := Address.name_injective (proper.keyed.record a).named.symm

theorem Proper.zero_record (proper : cells.Proper) (a : Address)
    (empty : (cells.record a).content = none) : (cells.record a).value = 0 := by
  rcases proper.record_or_blank a with ⟨_, same⟩ | ⟨_, fine⟩
  · rw [same]
    rfl
  · exact fine.zero empty

theorem Proper.written_record (proper : cells.Proper) {a : Address} {content : Content}
    (held : cells.content? a = some content) : content.Written a := by
  rw [content?_eq] at held
  rcases proper.record_or_blank a with ⟨_, same⟩ | ⟨_, fine⟩
  · rw [same] at held
    cases held
  · exact proper.address_record a ▸ fine.written content held

theorem Proper.valueAt_of_empty (proper : cells.Proper) {a : Address}
    (empty : cells.content? a = none) : cells.valueAt a = 0 := by
  rw [content?_eq] at empty
  rw [valueAt_eq]
  exact proper.zero_record a empty

theorem Proper.formulaAt?_eq_some_iff (proper : cells.Proper) {name : String} {a : Address} :
    cells.formulaAt? name = some a ↔ a.name = name ∧ ∃ content, cells.content? a = some content :=
  proper.keyed.formulaAt?_eq_some_iff

end Cells

namespace Draft

variable {draft : Draft}

theorem getElem?_change (draft : Draft) (a : Address) (f : Cell → Cell) (name : String) :
    (draft.change a f).cells[name]? =
      if a.name = name then some (f (draft.cells.record a)) else draft.cells[name]? := by
  unfold change Cells.record
  rw [Std.ExtTreeMap.getElem?_insert]
  simp only [Std.compare_eq_iff_eq]

theorem getElem?_drop (draft : Draft) (a : Address) (name : String) :
    (draft.drop a).cells[name]? = if a.name = name then none else draft.cells[name]? := by
  unfold drop
  rw [Std.ExtTreeMap.getElem?_erase]
  simp only [Std.compare_eq_iff_eq]

theorem record_change (draft : Draft) (a : Address) (f : Cell → Cell) (p : Address) :
    (draft.change a f).cells.record p =
      if a = p then f (draft.cells.record a) else draft.cells.record p := by
  unfold Cells.record
  rw [getElem?_change]
  by_cases same : a = p
  · rw [if_pos same, if_pos (congrArg Address.name same)]
    rfl
  · rw [if_neg same, if_neg fun names => same (Address.name_injective names)]

theorem record_drop (draft : Draft) (a p : Address) :
    (draft.drop a).cells.record p = if a = p then .blank p else draft.cells.record p := by
  unfold Cells.record
  rw [getElem?_drop]
  by_cases same : a = p
  · rw [if_pos same, if_pos (congrArg Address.name same)]
    rfl
  · rw [if_neg same, if_neg fun names => same (Address.name_injective names)]

theorem forall_change {holds : Cell → String → Prop} {a : Address} {f : Cell → Cell}
    (before : ∀ (name : String) (cell : Cell), draft.cells[name]? = some cell → holds cell name)
    (fine : holds (f (draft.cells.record a)) a.name) (name : String) (cell : Cell)
    (held : (draft.change a f).cells[name]? = some cell) : holds cell name := by
  rw [getElem?_change] at held
  split at held
  next same =>
    cases held
    exact same ▸ fine
  next => exact before name cell held

theorem change_proper {a : Address} {f : Cell → Cell} (proper : draft.cells.Proper)
    (fine : (f (draft.cells.record a)).Proper a.name) : (draft.change a f).cells.Proper :=
  forall_change proper fine

theorem drop_proper (proper : draft.cells.Proper) (a : Address) : (draft.drop a).cells.Proper := by
  intro name cell held
  rw [getElem?_drop] at held
  split at held
  next => cases held
  next => exact proper name cell held

/-! The links between cells. -/

theorem record_link (draft : Draft) (reader target p : Address) :
    (draft.link reader target).cells.record p =
      if target = p then
        (draft.cells.record target).withReader reader.name
      else draft.cells.record p :=
  record_change _ _ _ _

theorem link_proper (proper : draft.cells.Proper) (reader target : Address) :
    (draft.link reader target).cells.Proper := by
  apply change_proper proper
  have home := proper.address_record target
  constructor
  · exact congrArg Address.name home.symm
  · exact proper.zero_record target
  · rw [Cell.isIdle_eq_false_iff]
    exact .inr ⟨reader.name, Std.ExtTreeSet.mem_insert_self⟩
  · intro content held
    change content.Written (draft.cells.record target).address
    rw [home]
    exact proper.written_record (by rw [Cells.content?_eq]; exact held)

theorem link_keyed (keyed : draft.cells.Keyed) (reader target : Address) :
    (draft.link reader target).cells.Keyed := by
  have fine := keyed.record target
  exact forall_change keyed ⟨fine.named, fine.applied⟩

theorem unlink_cases (proper : draft.cells.Proper) (reader target : Address) :
    (draft.unlink reader target = draft ∧ draft.cells.record target = .blank target) ∨
      (draft.unlink reader target =
        (draft.change target fun _ => (draft.cells.record target).withoutReader reader.name) ∧
        ((draft.cells.record target).withoutReader reader.name).isIdle = false) ∨
      (draft.unlink reader target =
        (draft.change target fun _ => (draft.cells.record target).withoutReader reader.name).drop target ∧
        ((draft.cells.record target).withoutReader reader.name).isIdle = true) := by
  unfold unlink
  rcases proper.record_or_blank target with ⟨absent, same⟩ | ⟨held, _⟩
  · rw [absent]
    exact .inl ⟨rfl, same⟩
  · rw [held]
    refine .inr ?_
    simp only
    split
    next idle => exact .inr ⟨rfl, idle⟩
    next busy => exact .inl ⟨rfl, Bool.eq_false_iff.2 busy⟩

/-- A record dropped as idle says as much as the one that was left. -/
theorem record_unlink (proper : draft.cells.Proper) (reader target p : Address) :
    (draft.unlink reader target).cells.record p =
      if target = p then
        (draft.cells.record target).withoutReader reader.name
      else draft.cells.record p := by
  rcases unlink_cases proper reader target with ⟨same, blank⟩ | ⟨same, _⟩ | ⟨same, idle⟩
  · rw [same]
    split
    next here =>
      subst here
      have unread : (∅ : Std.ExtTreeSet String).erase reader.name = ∅ := by
        apply Std.ExtTreeSet.ext_mem
        intro name
        rw [Std.ExtTreeSet.mem_erase]
        simp only [Std.ExtTreeSet.not_mem_empty, and_false]
      rw [blank]
      unfold Cell.withoutReader
      change Cell.blank target = ⟨target, none, 0, (∅ : Std.ExtTreeSet String).erase reader.name⟩
      rw [unread]
      rfl
    next => rfl
  · rw [same, record_change]
  · rw [same, record_drop, record_change]
    split
    next here =>
      subst here
      exact (Cell.eq_blank_of_isIdle target idle (proper.address_record target)
        (proper.zero_record target)).symm
    next => rfl

theorem unlink_proper (proper : draft.cells.Proper) (reader target : Address) :
    (draft.unlink reader target).cells.Proper := by
  have home := proper.address_record target
  rcases unlink_cases proper reader target with ⟨same, _⟩ | ⟨same, busy⟩ | ⟨same, _⟩
  · rw [same]
    exact proper
  · rw [same]
    apply change_proper proper
    constructor
    · exact congrArg Address.name home.symm
    · exact proper.zero_record target
    · exact busy
    · intro content held
      change content.Written (draft.cells.record target).address
      rw [home]
      exact proper.written_record (by rw [Cells.content?_eq]; exact held)
  · rw [same]
    intro name cell held
    rw [getElem?_drop] at held
    split at held
    next => cases held
    next different =>
      rw [getElem?_change, if_neg different] at held
      exact proper name cell held

/-! Contents and values. -/

theorem record_setContent (draft : Draft) (a p : Address) (content : Content) :
    (draft.setContent a content).cells.record p =
      if a = p then (draft.cells.record a).withContent content
      else draft.cells.record p :=
  record_change _ _ _ _

theorem setContent_proper {a : Address} {content : Content} (proper : draft.cells.Proper)
    (written : content.Written a) : (draft.setContent a content).cells.Proper := by
  apply change_proper proper
  have home := proper.address_record a
  constructor
  · exact congrArg Address.name home.symm
  · intro empty
    cases empty
  · rw [Cell.isIdle_eq_false_iff]
    exact .inl ⟨content, rfl⟩
  · intro other held
    cases held
    exact home.symm ▸ written

theorem setContent_keyed {a : Address} {content : Content} (keyed : draft.cells.Keyed)
    (applied : content.formula.Applied) : (draft.setContent a content).cells.Keyed := by
  refine forall_change keyed ⟨(keyed.record a).named, fun other held => ?_⟩
  cases held
  exact applied

theorem record_setValue (draft : Draft) (a p : Address) (value : Float) :
    (draft.setValue a value).cells.record p =
      if a = p then (draft.cells.record a).withValue value else draft.cells.record p :=
  record_change draft a (fun cell => cell.withValue value) p

theorem setValue_proper {a : Address} {content : Content} (value : Float)
    (proper : draft.cells.Proper) (held : draft.cells.content? a = some content) :
    (draft.setValue a value).cells.Proper := by
  rw [Cells.content?_eq] at held
  change (draft.change a fun cell => cell.withValue value).cells.Proper
  apply change_proper proper
  have home := proper.address_record a
  constructor
  · exact congrArg Address.name home.symm
  · intro empty
    exact absurd (held.symm.trans empty) (Option.some_ne_none content)
  · rw [Cell.isIdle_eq_false_iff]
    exact .inl ⟨content, held⟩
  · intro other same
    change other.Written (draft.cells.record a).address
    rw [home]
    exact proper.written_record (by rw [Cells.content?_eq]; exact same)

theorem setValue_keyed (keyed : draft.cells.Keyed) (a : Address) (value : Float) :
    (draft.setValue a value).cells.Keyed := by
  change (draft.change a fun cell => cell.withValue value).cells.Keyed
  have fine := keyed.record a
  exact forall_change keyed ⟨fine.named, fine.applied⟩

/-! What the changes do to contents, values and readers. -/

theorem content?_link (draft : Draft) (reader target p : Address) :
    (draft.link reader target).cells.content? p = draft.cells.content? p := by
  rw [Cells.content?_eq, Cells.content?_eq, record_link]
  split
  next same => exact same ▸ rfl
  next => rfl

theorem valueAt_link (draft : Draft) (reader target p : Address) :
    (draft.link reader target).cells.valueAt p = draft.cells.valueAt p := by
  rw [Cells.valueAt_eq, Cells.valueAt_eq, record_link]
  split
  next same => exact same ▸ rfl
  next => rfl

theorem mem_readers_link {reader target p : Address} {name : String} :
    name ∈ (draft.link reader target).cells.readers p ↔
      (target = p ∧ reader.name = name) ∨ name ∈ draft.cells.readers p := by
  rw [Cells.readers_eq, Cells.readers_eq, record_link]
  by_cases same : target = p
  · rw [if_pos same]
    unfold Cell.withReader
    rw [Std.ExtTreeSet.mem_insert, Std.compare_eq_iff_eq, same]
    simp only [true_and]
  · rw [if_neg same]
    simp only [same, false_and, false_or]

theorem content?_unlink (proper : draft.cells.Proper) (reader target p : Address) :
    (draft.unlink reader target).cells.content? p = draft.cells.content? p := by
  rw [Cells.content?_eq, Cells.content?_eq, record_unlink proper]
  split
  next same => exact same ▸ rfl
  next => rfl

theorem valueAt_unlink (proper : draft.cells.Proper) (reader target p : Address) :
    (draft.unlink reader target).cells.valueAt p = draft.cells.valueAt p := by
  rw [Cells.valueAt_eq, Cells.valueAt_eq, record_unlink proper]
  split
  next same => exact same ▸ rfl
  next => rfl

theorem mem_readers_unlink (proper : draft.cells.Proper) {reader target p : Address}
    {name : String} :
    name ∈ (draft.unlink reader target).cells.readers p ↔
      name ∈ draft.cells.readers p ∧ ¬ (target = p ∧ reader.name = name) := by
  rw [Cells.readers_eq, Cells.readers_eq, record_unlink proper]
  by_cases same : target = p
  · rw [if_pos same]
    unfold Cell.withoutReader
    rw [Std.ExtTreeSet.mem_erase, Ne, Std.compare_eq_iff_eq, same]
    simp only [true_and]
    exact and_comm
  · rw [if_neg same]
    simp only [same, false_and, not_false_eq_true, and_true]

theorem content?_setContent (draft : Draft) (a p : Address) (content : Content) :
    (draft.setContent a content).cells.content? p =
      if a = p then some content else draft.cells.content? p := by
  rw [Cells.content?_eq, Cells.content?_eq, record_setContent]
  split
  next => rfl
  next => rfl

theorem valueAt_setContent (draft : Draft) (a p : Address) (content : Content) :
    (draft.setContent a content).cells.valueAt p = draft.cells.valueAt p := by
  rw [Cells.valueAt_eq, Cells.valueAt_eq, record_setContent]
  split
  next same => exact same ▸ rfl
  next => rfl

theorem readers_setContent (draft : Draft) (a p : Address) (content : Content) :
    (draft.setContent a content).cells.readers p = draft.cells.readers p := by
  rw [Cells.readers_eq, Cells.readers_eq, record_setContent]
  split
  next same => exact same ▸ rfl
  next => rfl

theorem content?_setValue (draft : Draft) (a p : Address) (value : Float) :
    (draft.setValue a value).cells.content? p = draft.cells.content? p := by
  rw [Cells.content?_eq, Cells.content?_eq, record_setValue]
  split
  next same => exact same ▸ rfl
  next => rfl

theorem valueAt_setValue (draft : Draft) (a p : Address) (value : Float) :
    (draft.setValue a value).cells.valueAt p =
      if a = p then value else draft.cells.valueAt p := by
  rw [Cells.valueAt_eq, Cells.valueAt_eq, record_setValue]
  split
  next => rfl
  next => rfl

theorem readers_setValue (draft : Draft) (a p : Address) (value : Float) :
    (draft.setValue a value).cells.readers p = draft.cells.readers p := by
  rw [Cells.readers_eq, Cells.readers_eq, record_setValue]
  split
  next same => exact same ▸ rfl
  next => rfl

theorem content?_drop (draft : Draft) (a p : Address) :
    (draft.drop a).cells.content? p = if a = p then none else draft.cells.content? p := by
  rw [Cells.content?_eq, Cells.content?_eq, record_drop]
  split
  next => rfl
  next => rfl

theorem valueAt_drop (draft : Draft) (a p : Address) :
    (draft.drop a).cells.valueAt p = if a = p then 0 else draft.cells.valueAt p := by
  rw [Cells.valueAt_eq, Cells.valueAt_eq, record_drop]
  split
  next => rfl
  next => rfl

theorem readers_drop (draft : Draft) (a p : Address) :
    (draft.drop a).cells.readers p = if a = p then ∅ else draft.cells.readers p := by
  rw [Cells.readers_eq, Cells.readers_eq, record_drop]
  split
  next => rfl
  next => rfl

end Draft

end Worksheet
