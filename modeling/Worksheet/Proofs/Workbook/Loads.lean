import Worksheet.Proofs.Sheet.Replays
import Worksheet.Proofs.Workbook.Failures

/-! Loads. A load that succeeds has put in the last entry for each cell that its file names, has left the
formulas of the others, has written the new listing, and tells of every cell that is not as it was, with
the value that it has now. The listing of the workbook itself changes nothing. -/

namespace Worksheet

open Cells

def Answer.updates? : Answer → Option Updates
  | .updates (.ok made) => some made
  | _ => none

theorem Answer.fault?_of_updates? {answer : Answer} {made : Updates}
    (done : answer.updates? = some made) : answer.fault? = none := by
  cases answer with
  | updates result =>
    cases result with
    | ok _ => rfl
    | error _ => cases done
  | _ => cases done

namespace Session

variable {path : String} {session : Session path} {event : Event} {name : String}
  {entries : List (String × String)} {updates : Updates} {next : Sheet}

theorem serve_load (own : session.book.path = path) (loads : event.call = .load name)
    (read : Disk.listed ((session.disk.during event).readBytes name) = .ok entries)
    (replayed : session.book.sheet.replay entries = (.ok updates, next))
    (granted : event.refusal = none) :
    session.serve event = (.updates (.ok updates), ⟨⟨path, next⟩,
      { session.disk.during event with file := Disk.written next.listing }⟩) := by
  obtain ⟨⟨own', sheet⟩, disk⟩ := session
  change own' = path at own
  subst own
  change sheet.replay entries = _ at replayed
  have refusal : (disk.during event).refusal = none := granted
  unfold serve
  rw [loads]
  unfold Workbook.serve Workbook.load
  simp only [StateT.run_map, StateT.run_bind, Disk.readListing_run, pure_bind, read, replayed,
    Disk.writeListing_run, refusal]
  rfl

theorem exists_replay_of_load (reached : session.book.Reached path) (loads : event.call = .load name)
    (done : (session.serve event).1.updates? = some updates) :
    ∃ entries next, Disk.listed ((session.disk.during event).readBytes name) = .ok entries ∧
      session.book.sheet.replay entries = (.ok updates, next) ∧
      (session.serve event).2 = ⟨⟨path, next⟩,
        { session.disk.during event with file := Disk.written next.listing }⟩ := by
  obtain ⟨own, stable⟩ := reached.sound
  have never : ∀ fault, ¬ LoadFails session.book.sheet (session.disk.during event) name fault := by
    intro fault fails
    have failed := (load_fault_iff own stable loads).2 fails
    cases (Answer.fault?_of_updates? done).symm.trans failed
  cases read : Disk.listed ((session.disk.during event).readBytes name) with
  | error fault => exact absurd (.unread read) (never fault)
  | ok entries =>
    rcases session.book.sheet.accepts_or_refuses entries with accepted | ⟨fault, refuses⟩
    · cases refusal : event.refusal with
      | some cause => exact absurd (.unwritten read accepted refusal) (never (.file cause))
      | none =>
        obtain ⟨all, replayed⟩ := accepted.replayFrom []
        have served := serve_load own loads read replayed refusal
        rw [served] at done ⊢
        cases done
        exact ⟨entries, _, rfl, replayed, rfl⟩
    · exact absurd (.refused read refuses) (never fault)

/-- What a load of `entries` makes of a session, and what its updates tell about that. -/
structure Loaded (entries : List (String × String)) (updates : Updates) (before after : Session path) :
    Prop where
  named : ∀ entry ∈ entries, ∃ a text, Address.ofName? entry.1 = some a ∧ LastFor entries a text
  formula : ∀ a text, LastFor entries a text → ∃ formula, Formula.read a text = .ok formula ∧
    after.book.sheet.cells.formula? a = some formula
  unnamed : ∀ a, (∀ entry ∈ entries, Address.ofName? entry.1 ≠ some a) →
    after.book.sheet.cells.content? a = before.book.sheet.cells.content? a
  file : after.disk.file = Disk.written after.book.listing
  distinct : updates.keys.Nodup
  value : ∀ entry ∈ updates, Address.ofName? entry.1.name = some entry.1 ∧
    ∀ cell, Address.ofName? cell = some entry.1 → (after.book.query cell).value = entry.2
  changed : ∀ p, after.book.sheet.cells.content? p ≠ before.book.sheet.cells.content? p ∨
    after.book.sheet.cells.valueAt p ≠ before.book.sheet.cells.valueAt p → p ∈ updates.keys

/-- A load that succeeds, into whatever workbook has been reached, has read a listing, has put in the last
of its entries for each cell, and tells exactly what has become of the cells. -/
theorem loaded_of_ok (reached : session.book.Reached path) (loads : event.call = .load name)
    (done : (session.serve event).1.updates? = some updates) :
    ∃ entries, Disk.listed ((session.disk.during event).readBytes name) = .ok entries ∧
      Loaded entries updates session (session.serve event).2 := by
  obtain ⟨own, stable⟩ := reached.sound
  obtain ⟨entries, next, read, replayed, served⟩ := exists_replay_of_load reached loads done
  obtain ⟨accepted, made⟩ := Sheet.replayFrom_eq_ok_iff.1 ⟨updates, replayed⟩
  have after : next.Stable := stable.replay replayed
  have accounts := Sheet.replayFrom_accountsFor stable (Updates.accountsFor_nil _) replayed
  refine ⟨entries, read, ?_⟩
  rw [served]
  subst made
  refine ⟨fun entry member => ?_, fun a text last => accepted.formula?_of_lastFor stable last,
    fun a unnamed => ?_, rfl, accounts.distinct, fun entry member => ⟨?_, fun cell named => ?_⟩,
    fun p differs => ?_⟩
  · obtain ⟨a, named⟩ := accepted.named stable entry member
    obtain ⟨text, last⟩ := exists_lastFor ⟨entry, member, named⟩
    exact ⟨a, text, named, last⟩
  · exact after.now.intact.proper.content?_eq_of_formula? stable.now.intact.proper
      (accepted.formula?_of_unnamed stable unnamed)
  · obtain ⟨formula, held⟩ := accounts.held entry.1 (List.mem_map_of_mem member)
    exact Address.ofName?_name (after.now.nameable _ _ held)
  · exact (Sheet.value_query named _).trans (accounts.value entry member)
  · by_contra absent
    obtain ⟨content, value⟩ := accounts.others p absent
    exact differs.elim (fun other => other content) fun other => other value

theorem loaded_of_two_names :
    ∃ before after : Session "sheet.json",
      before = (new "sheet.json").run [⟨.edit "b1" "a1+1", fun _ => .error .notFound, none⟩,
        ⟨.edit "c1" "a1*b1", fun _ => .error .notFound, none⟩] ∧
      after = (before.serve ⟨.load "more.json",
        fun _ => Disk.written [("A1", "5"), ("d1", "e1-c1"), ("$a$01", "2")], none⟩).2 ∧
      Loaded [("A1", "5"), ("d1", "e1-c1"), ("$a$01", "2")]
        [(⟨0, 0⟩, 2), (⟨1, 0⟩, 3), (⟨2, 0⟩, 6), (⟨3, 0⟩, -6)] before after := by
  refine ⟨_, _, rfl, rfl, ?_⟩
  have reached := (Workbook.Reached.new "sheet.json").run
    [⟨.edit "b1" "a1+1", fun _ => .error .notFound, none⟩,
      ⟨.edit "c1" "a1*b1", fun _ => .error .notFound, none⟩]
  have done : (((new "sheet.json").run [⟨.edit "b1" "a1+1", fun _ => .error .notFound, none⟩,
      ⟨.edit "c1" "a1*b1", fun _ => .error .notFound, none⟩]).serve ⟨.load "more.json",
      fun _ => Disk.written [("A1", "5"), ("d1", "e1-c1"), ("$a$01", "2")], none⟩).1.updates? =
      some [(⟨0, 0⟩, 2), (⟨1, 0⟩, 3), (⟨2, 0⟩, 6), (⟨3, 0⟩, -6)] := by
    decide +kernel
  obtain ⟨entries, read, loaded⟩ := loaded_of_ok reached rfl done
  cases read.symm.trans (Disk.listed_written _)
  exact loaded

theorem cells_of_fault (own : session.book.path = path) (stable : session.book.sheet.Stable)
    {fault : Fault} (failed : (session.serve event).1.fault? = some fault) :
    (session.serve event).2.book.sheet.cells = session.book.sheet.cells := by
  have served := serves own stable event
  generalize (session.serve event).1 = answer at failed served
  generalize (session.serve event).2.book = book at served
  cases served with
  | kept _ same _ => exact same
  | saved done _ _ =>
    rw [failed] at done
    cases done

structure Reloaded (event : Event) (before after : Session path) (answer : Answer) : Prop where
  granted : event.refusal = none → ∃ updates, answer.updates? = some updates
  refused : ∀ cause, event.refusal = some cause → answer.fault? = some (.file cause)
  cells : after.book.sheet.cells = before.book.sheet.cells
  listing : after.book.listing = before.book.listing
  query : ∀ cell, after.book.query cell = before.book.query cell

theorem reloaded_of_perm (reached : session.book.Reached path) (loads : event.call = .load name)
    (read : Disk.listed ((session.disk.during event).readBytes name) = .ok entries)
    (perm : entries.Perm session.book.listing) :
    Reloaded event session (session.serve event).2 (session.serve event).1 := by
  obtain ⟨own, stable⟩ := reached.sound
  obtain ⟨updates, next, replayed, same⟩ := Sheet.replay_own stable perm
  have accepted := (Sheet.replayFrom_eq_ok_iff.1 ⟨updates, replayed⟩).1
  cases refusal : event.refusal with
  | none =>
    rw [serve_load own loads read replayed refusal]
    refine ⟨fun _ => ⟨updates, rfl⟩, fun cause refused => ?_, same, Sheet.listing_congr same,
      Sheet.query_congr same⟩
    cases refusal.symm.trans refused
  | some cause =>
    have failed := (load_fault_iff own stable loads).2 (.unwritten read accepted refusal)
    have kept := cells_of_fault own stable failed
    refine ⟨fun granted => ?_, fun other refused => ?_, kept, Sheet.listing_congr kept,
      Sheet.query_congr kept⟩
    · cases refusal.symm.trans granted
    · cases refusal.symm.trans refused
      exact failed

/-- In whatever a history has led to, to enter again what a cell shows succeeds, changes no record, and
tells the values of the cell and of all that reads on from it. So in whatever workbook has been reached, to
load its own listing, in any order, succeeds if the file can be written, and changes nothing. -/
theorem unchanged_by_reentry :
    (∀ history cell a formula, Address.ofName? cell = some a →
      (Sheet.after history).cells.formula? a = some formula →
      ∃ updates, ((Sheet.after history).edit cell ((Sheet.after history).query cell).text).1 =
          .ok updates ∧
        (Sheet.after history).Reentered
          ((Sheet.after history).edit cell ((Sheet.after history).query cell).text).2 a updates) ∧
    ∀ (path : String) (session : Session path) (event : Event) (name : String)
      (entries : List (String × String)), session.book.Reached path → event.call = .load name →
      Disk.listed ((session.disk.during event).readBytes name) = .ok entries →
      entries.Perm session.book.listing →
      Reloaded event session (session.serve event).2 (session.serve event).1 :=
  ⟨fun history _ _ _ named held => Sheet.edit_shown (Sheet.after_stable history) named held,
    fun _ _ _ _ _ reached loads read perm => reloaded_of_perm reached loads read perm⟩

theorem unchanged_by_reentry_backwards :
    (∃ sheet updates,
      sheet = Sheet.after [.edit "b1" "a1*2+c1", .edit "d1" "max(b1, $A$1)", .edit "a1" "3"] ∧
      (sheet.edit "$B01" (sheet.query "$B01").text).1 = .ok updates ∧
      sheet.Reentered (sheet.edit "$B01" (sheet.query "$B01").text).2 ⟨1, 0⟩ updates) ∧
    ∃ before : Session "sheet.json", ∃ event,
      before = (new "sheet.json").run [⟨.edit "b1" "a1+1", fun _ => .error .notFound, none⟩,
        ⟨.edit "a1" "2", fun _ => .error .notFound, none⟩] ∧
      event = ⟨.load "more.json", fun _ => Disk.written [("b1", "a1+1"), ("a1", "2")], none⟩ ∧
      before.book.listing = [("a1", "2"), ("b1", "a1+1")] ∧
      Reloaded event before (before.serve event).2 (before.serve event).1 := by
  obtain ⟨formula, held⟩ := Option.isSome_iff_exists.1 (show ((Sheet.after [.edit "b1" "a1*2+c1",
    .edit "d1" "max(b1, $A$1)", .edit "a1" "3"]).cells.formula? ⟨1, 0⟩).isSome by decide +kernel)
  obtain ⟨updates, done, same⟩ := unchanged_by_reentry.1 _ "$B01" _ _ (by decide +kernel) held
  have listed : ((new "sheet.json").run [⟨.edit "b1" "a1+1", fun _ => .error .notFound, none⟩,
      ⟨.edit "a1" "2", fun _ => .error .notFound, none⟩]).book.listing =
      [("a1", "2"), ("b1", "a1+1")] := by
    decide +kernel
  refine ⟨⟨_, updates, rfl, done, same⟩, _, _, rfl, rfl, listed, ?_⟩
  refine unchanged_by_reentry.2 _ _ _ "more.json" [("b1", "a1+1"), ("a1", "2")]
    ((Workbook.Reached.new "sheet.json").run _) rfl (Disk.listed_written _) ?_
  rw [listed]
  exact .swap _ _ _

end Session

end Worksheet
