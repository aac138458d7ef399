import Worksheet.Proofs.Guarded.Actions
import Worksheet.Proofs.Sheet.Independence

/-! Guarded runs. A new sheet answers whatever it is asked, and no guarded run of it stops at a site: the
formulas that it holds stay well-formed where they stand, and what it lists has records. -/

namespace Worksheet.Guarded

def transact (sheet : Sheet) (action : Action Unit) : Except Stop (Except Fault Updates × Sheet) :=
  match action.run (Draft.start sheet.cells) with
  | .ok _ draft => .ok (.ok draft.updates, ⟨draft.cells, draft.journal⟩)
  | .error (.fault fault) draft => .ok (.error fault, ⟨draft.journal.revert draft.cells, ∅⟩)
  | .error (.site site) _ => .error (.site site)

def perform (sheet : Sheet) : Operation → Except Stop (Except Fault Updates × Sheet)
  | .edit cell text => transact sheet (enter cell text)
  | .delete cell => transact sheet (erase cell)
  | .copy dest source => transact sheet (transfer dest source)
  | .clear => .ok (.ok [], sheet.clear)
  | .undo => .ok (.ok [], sheet.undo)

def query (sheet : Sheet) (cell : String) : Except Stop Entry := do
  match ← address cell.toList with
  | some a => return ⟨sheet.cells.textOf a.name, sheet.cells.valueAt a⟩
  | none => return ⟨"", 0⟩

def entry (cells : Cells) (name : String) : Except Stop (String × String) :=
  match cells[name]? with
  | some cell =>
      match cell.content with
      | some content => .ok (name, content.text)
      | none => .ok (name, "")
  | none => .error (.site (.record name))

def entries (cells : Cells) : List String → Except Stop (List (String × String))
  | [] => .ok []
  | name :: rest => do
      let first ← entry cells name
      let others ← entries cells rest
      return first :: others

def respond (sheet : Sheet) : Request → Except Stop (Reply × Sheet)
  | .perform operation => do
      let (outcome, next) ← perform sheet operation
      return (.outcome outcome, next)
  | .query cell => do
      let entry ← query sheet cell
      return (.entry entry, sheet)
  | .list => do
      let listing ← entries sheet.cells sheet.cells.listed
      return (.listing listing, sheet)
  | .size => .ok (.size sheet.size, sheet)

def replies (sheet : Sheet) : List Request → Except Stop (List Reply)
  | [] => .ok []
  | request :: rest => do
      let (reply, next) ← respond sheet request
      let others ← replies next rest
      return reply :: others

section

variable {sheet : Sheet}

theorem transact_eq {guarded : Action Unit} {action : Worksheet.Action Unit}
    {done : Unit → Draft → Prop}
    (follows : Follows guarded action (Draft.start sheet.cells) done) :
    transact sheet guarded = .ok (sheet.transact action) := by
  unfold transact Sheet.transact EStateM.run
  rw [follows.same]
  unfold lift
  cases action (Draft.start sheet.cells) with
  | ok x draft => rfl
  | error fault draft => rfl

theorem perform_eq (stable : sheet.Stable) (operation : Operation) :
    perform sheet operation = .ok (sheet.perform operation) := by
  have intact : (Draft.start sheet.cells).cells.Intact := stable.now.intact
  cases operation with
  | edit cell text => exact transact_eq (enter_follows intact cell text)
  | delete cell => exact transact_eq (erase_follows intact cell)
  | copy dest source => exact transact_eq (transfer_follows intact dest source)
  | clear | undo => rfl

theorem query_eq (sheet : Sheet) (cell : String) : query sheet cell = .ok (sheet.query cell) := by
  unfold query Sheet.query Address.ofName?
  rw [address_eq]
  cases Address.ofChars? cell.toList with
  | none => rfl
  | some a => rfl

theorem entry_eq {cells : Cells} {name : String} (held : name ∈ cells.formulaNames) :
    entry cells name = .ok (name, cells.textOf name) := by
  obtain ⟨a, found⟩ := Cells.mem_formulaNames.1 held
  obtain ⟨cell, inside, inner⟩ := Option.bind_eq_some_iff.1 found
  obtain ⟨content, same, _⟩ := Option.map_eq_some_iff.1 inner
  unfold entry Cells.textOf
  simp only [inside, same, Option.bind_some]

theorem entries_eq {cells : Cells} {names : List String}
    (held : ∀ name ∈ names, name ∈ cells.formulaNames) :
    entries cells names = .ok (names.map fun name => (name, cells.textOf name)) := by
  induction names with
  | nil => rfl
  | cons name rest ih =>
    rw [entries, entry_eq (held name List.mem_cons_self),
      ih fun other member => held other (List.mem_cons_of_mem name member), List.map_cons]
    rfl

theorem respond_eq (stable : sheet.Stable) (request : Request) :
    respond sheet request = .ok (sheet.respond request) := by
  cases request with
  | perform operation =>
    rw [respond, perform_eq stable]
    rfl
  | query cell =>
    rw [respond, query_eq]
    rfl
  | list =>
    rw [respond, entries_eq fun name member => (Cells.perm_listed sheet.cells).mem_iff.1 member]
    rfl
  | size => rfl

theorem stable_respond (stable : sheet.Stable) (request : Request) :
    (sheet.respond request).2.Stable := by
  cases request with
  | perform operation => exact stable.perform operation
  | query cell => exact stable
  | list => exact stable
  | size => exact stable

theorem replies_eq (stable : sheet.Stable) (requests : List Request) :
    replies sheet requests = .ok (sheet.replies requests) := by
  induction requests generalizing sheet with
  | nil => rfl
  | cons request rest ih =>
    rw [replies, respond_eq stable request]
    change (replies (sheet.respond request).2 rest >>= fun others => _) = _
    rw [ih (stable_respond stable request)]
    rfl

end

/-- No run of a new sheet stops at a site, whatever it is asked, and the checks do not change its
replies. -/
theorem replies_without_stop (requests : List Request) :
    replies Sheet.empty requests = .ok (Sheet.empty.replies requests) :=
  replies_eq Sheet.empty_stable requests

end Worksheet.Guarded
