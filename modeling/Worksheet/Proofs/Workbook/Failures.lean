import Worksheet.Proofs.Sheet.Independence
import Worksheet.Proofs.Workbook.Sessions

/-! Failures. Whatever a workbook has been through, a call that fails leaves its answers and its file as
they were. A load fails at the first of its steps that fails, and with the fault of that step; to rebuild
the sheet afterwards never fails. -/

namespace Worksheet

/-- A workbook that has been opened and has served any calls, whatever its file and the others held at
each of them. -/
inductive Workbook.Reached (path : String) : Workbook → Prop
  | opened {disk next : Disk path} {book : Workbook}
      (opened : (Workbook.openAt (m := StateM (Disk path)) path).run disk = (.ok book, next)) :
      Reached path book
  | served {session : Session path} (reached : Reached path session.book) (event : Event) :
      Reached path (session.serve event).2.book

def Session.new (path : String) : Session path :=
  ⟨⟨path, .empty⟩, ⟨.error .notFound, fun _ => .error .notFound, none⟩⟩

theorem Workbook.Reached.new (path : String) : (Session.new path).book.Reached path := by
  have opens : Disk.Opens (Disk.listed (Session.new path).disk.file) (Session.new path).book.sheet :=
    .missing
  exact .opened (Disk.openAt_run_iff.2 ⟨opens, rfl, rfl⟩)

theorem Workbook.Reached.run {path : String} {session : Session path}
    (reached : session.book.Reached path) (events : List Event) :
    (session.run events).book.Reached path := by
  unfold Session.run
  induction events generalizing session with
  | nil => exact reached
  | cons event rest ih => exact ih (.served reached event)

inductive LoadFails {path : String} (sheet : Sheet) (disk : Disk path) (name : String) : Fault → Prop
  | unread {fault : Fault} (read : Disk.listed (disk.readBytes name) = .error fault) :
      LoadFails sheet disk name fault
  | refused {entries : List (String × String)} {fault : Fault}
      (read : Disk.listed (disk.readBytes name) = .ok entries)
      (refuses : sheet.RefusesEntry entries fault) : LoadFails sheet disk name fault
  | unwritten {entries : List (String × String)} {cause : FileFault}
      (read : Disk.listed (disk.readBytes name) = .ok entries) (accepts : sheet.Accepts entries)
      (refusal : disk.refusal = some cause) : LoadFails sheet disk name (.file cause)

section

variable {path : String} {sheet : Sheet} {disk : Disk path} {name : String} {fault : Fault}

theorem loadFails_iff :
    LoadFails sheet disk name fault ↔
      match Disk.listed (disk.readBytes name) with
      | .error cause => cause = fault
      | .ok entries =>
          match (sheet.replay entries).1 with
          | .error cause => cause = fault
          | .ok _ => ∃ cause, disk.refusal = some cause ∧ .file cause = fault := by
  constructor
  · intro fails
    cases fails with
    | unread read => simp only [read]
    | refused read refuses =>
      simp only [read, Sheet.replay, refuses.replayFrom []]
    | @unwritten entries cause read accepts refusal =>
      obtain ⟨all, replayed⟩ := accepts.replayFrom []
      simp only [read, Sheet.replay, replayed]
      exact ⟨cause, refusal, rfl⟩
  · intro reason
    cases read : Disk.listed (disk.readBytes name) with
    | error cause =>
      simp only [read] at reason
      exact reason ▸ .unread read
    | ok entries =>
      simp only [read] at reason
      cases result : (sheet.replay entries).1 with
      | error cause =>
        simp only [result] at reason
        exact reason ▸ .refused read (Sheet.replayFrom_eq_error_iff.1 result)
      | ok updates =>
        simp only [result] at reason
        obtain ⟨cause, refusal, rfl⟩ := reason
        exact .unwritten read (Sheet.replayFrom_eq_ok_iff.1 ⟨updates, Prod.ext result rfl⟩).1 refusal

theorem load_fault_iff (stable : sheet.Stable) :
    (((Workbook.serve (m := StateM (Disk path)) ⟨path, sheet⟩ (.load name)).run disk).1.1.fault? =
      some fault) ↔ LoadFails sheet disk name fault := by
  rw [loadFails_iff]
  unfold Workbook.serve Workbook.load
  simp only [StateT.run_map, StateT.run_bind, Disk.readListing_run, pure_bind]
  cases Disk.listed (disk.readBytes name) with
  | error cause => exact Option.some_inj
  | ok entries =>
    simp only
    cases result : sheet.replay entries with
    | mk outcome next =>
      cases outcome with
      | error cause =>
        obtain ⟨again, rebuilt, _⟩ := Workbook.rebuild_listing ⟨path, next⟩ stable.now cause
        simp only [rebuilt]
        exact Option.some_inj
      | ok updates =>
        simp only [StateT.run_bind, Disk.writeListing_run]
        cases disk.refusal with
        | none =>
          constructor
          · intro never
            cases never
          · rintro ⟨_, never, _⟩
            cases never
        | some cause =>
          obtain ⟨again, rebuilt, _⟩ :=
            Workbook.rebuild_listing ⟨path, next⟩ stable.now (.file cause)
          simp only [pure_bind, rebuilt, Option.some.injEq, exists_eq_left']
          exact Option.some_inj

end

section

variable {path : String} {session : Session path}

theorem Workbook.Reached.sound {book : Workbook} (reached : book.Reached path) :
    book.path = path ∧ book.sheet.Stable := by
  induction reached with
  | opened opened =>
    obtain ⟨opens, same, _⟩ := Disk.openAt_run_iff.1 opened
    exact ⟨same, opens.stable⟩
  | @served session reached event ih =>
    have served := Session.serves ih.1 ih.2 event
    generalize (session.serve event).2.book = book at served
    cases served with
    | kept stable => exact ⟨rfl, stable⟩
    | saved _ stable => exact ⟨rfl, stable⟩

theorem Session.load_fault_iff (own : session.book.path = path) (stable : session.book.sheet.Stable)
    {event : Event} {name : String} (loads : event.call = .load name) {fault : Fault} :
    (session.serve event).1.fault? = some fault ↔
      LoadFails session.book.sheet (session.disk.during event) name fault := by
  obtain ⟨⟨own', sheet⟩, disk⟩ := session
  change own' = path at own
  subst own
  unfold serve
  rw [loads]
  exact Worksheet.load_fault_iff stable

end

namespace Session

variable {path : String} {session : Session path}

/-- A call that fails leaves the listing, all answers to queries and the file of the workbook as they
were; and the fault of a load is that of the step that failed. -/
theorem unchanged_of_fault (reached : session.book.Reached path) (event : Event) {fault : Fault}
    (failed : (session.serve event).1.fault? = some fault) :
    (session.serve event).2.book.listing = session.book.listing ∧
    (∀ cell, (session.serve event).2.book.query cell = session.book.query cell) ∧
    (session.serve event).2.disk.file = session.disk.file ∧
    ∀ name, event.call = .load name → ∀ cause,
      LoadFails session.book.sheet (session.disk.during event) name cause ↔ cause = fault := by
  obtain ⟨own, stable⟩ := reached.sound
  have loaded : ∀ name, event.call = .load name → ∀ cause,
      LoadFails session.book.sheet (session.disk.during event) name cause ↔ cause = fault := by
    intro name loads cause
    rw [← load_fault_iff own stable loads, failed, Option.some_inj]
    exact eq_comm
  have served := serves own stable event
  generalize (session.serve event).1 = answer at failed served
  generalize (session.serve event).2.book = book at served
  generalize (session.serve event).2.disk = disk at served
  cases served with
  | kept _ same file =>
    exact ⟨Sheet.listing_congr same, Sheet.query_congr same, file, loaded⟩
  | saved done =>
    rw [failed] at done
    cases done

theorem unchanged_by_broken_load :
    ∃ (before after : Session "sheet.json") (answer : Answer),
      before = (new "sheet.json").run [⟨.edit "a1" "b1+1", fun _ => .error .notFound, none⟩] ∧
      before.serve ⟨.load "more.json",
        fun _ => Disk.written [("A1", "5"), ("c1", "d1"), ("d1", "c1/a1")], none⟩ =
          (answer, after) ∧
      answer.fault? = some (.circular "d1") ∧
      after.book.listing = [("a1", "b1+1")] ∧
      after.book.query "a1" = ⟨"b1+1", 1⟩ ∧
      after.disk.file = Disk.written [("a1", "b1+1")] := by
  have reached : ((new "sheet.json").run
      [⟨.edit "a1" "b1+1", fun _ => .error .notFound, none⟩]).book.Reached "sheet.json" :=
    .served (.new "sheet.json") _
  have failed : (((new "sheet.json").run
      [⟨.edit "a1" "b1+1", fun _ => .error .notFound, none⟩]).serve ⟨.load "more.json",
        fun _ => Disk.written [("A1", "5"), ("c1", "d1"), ("d1", "c1/a1")], none⟩).1.fault? =
      some (.circular "d1") := by
    decide +kernel
  obtain ⟨listing, queries, file, _⟩ := unchanged_of_fault reached _ failed
  refine ⟨_, _, _, rfl, Prod.mk.eta.symm, failed, listing.trans ?_, (queries "a1").trans ?_, file.trans ?_⟩
  · decide +kernel
  · decide +kernel
  · decide +kernel

end Session

end Worksheet
