import Worksheet.Proofs.Sheet.Undoing
import Worksheet.Proofs.Workbook.Disk

/-! Sessions. A workbook serves call after call, each with other files around it and a fault or none for
its write. What a workbook has in memory is never more than what its file says: every call that changes
the cells has written their listing, and every call that could not write it has put the cells back. -/

namespace Worksheet

inductive Call where
  | edit (cell text : String)
  | delete (cell : String)
  | copy (dest source : String)
  | load (path : String)
  | clear
  | query (cell : String)
  | list

inductive Answer where
  | updates (outcome : Except Fault Updates)
  | cleared (outcome : Except Fault Unit)
  | entry (entry : Entry)
  | listing (entries : List (String × String))

def Answer.fault? : Answer → Option Fault
  | .updates (.error fault) => some fault
  | .cleared (.error fault) => some fault
  | _ => none

namespace Workbook

def serve {m : Type → Type} [Monad m] [FileAccess m] (book : Workbook) :
    Call → m (Answer × Workbook)
  | .edit cell text => Prod.map .updates id <$> book.edit cell text
  | .delete cell => Prod.map .updates id <$> book.delete cell
  | .copy dest source => Prod.map .updates id <$> book.copy dest source
  | .load path => Prod.map .updates id <$> book.load path
  | .clear => Prod.map .cleared id <$> book.clear
  | .query cell => return (.entry (book.query cell), book)
  | .list => return (.listing book.listing, book)

theorem rebuild_listing (book : Workbook) {sheet : Sheet} (stable : sheet.cells.Stable)
    (fault : Fault) : ∃ next, book.rebuild sheet.listing fault = (.error fault, ⟨book.path, next⟩) ∧
      next.Stable ∧ next.cells = sheet.cells := by
  obtain ⟨updates, next, replayed, same⟩ := Sheet.replay_listing stable
  refine ⟨next, ?_, Sheet.empty_stable.replay replayed, same⟩
  unfold rebuild
  simp only [replayed]

end Workbook

/-- A call, what the other files hold at the time, and the fault that its write meets, if any. -/
structure Event where
  call : Call
  others : String → Except FileFault ByteArray
  refusal : Option FileFault

def Disk.during {path : String} (disk : Disk path) (event : Event) : Disk path :=
  { disk with others := event.others, refusal := event.refusal }

structure Session (path : String) where
  book : Workbook
  disk : Disk path

namespace Session

variable {path : String}

def serve (session : Session path) (event : Event) : Answer × Session path :=
  let served := (session.book.serve (m := StateM (Disk path)) event.call).run
    (session.disk.during event)
  (served.1.1, ⟨served.1.2, served.2⟩)

def run (session : Session path) (events : List Event) : Session path :=
  events.foldl (fun session event => (session.serve event).2) session

end Session

/-- How a call that finds `cells` on a workbook may end: cells and file are as they were, or the call has
not failed and the file has the listing of the new sheet. -/
inductive Serves {path : String} (cells : Cells) (disk : Disk path) :
    (Answer × Workbook) × Disk path → Prop
  | kept {answer : Answer} {sheet : Sheet} {next : Disk path} (stable : sheet.Stable)
      (same : sheet.cells = cells) (file : next.file = disk.file) :
      Serves cells disk ((answer, ⟨path, sheet⟩), next)
  | saved {answer : Answer} {sheet : Sheet} {next : Disk path} (done : answer.fault? = none)
      (stable : sheet.Stable)
      (file : next.file = Disk.written sheet.listing) :
      Serves cells disk ((answer, ⟨path, sheet⟩), next)

section

variable {path : String} {sheet : Sheet} (stable : sheet.Stable) (disk : Disk path)

include stable

theorem commit_serves (operation : Operation) (change : operation.IsChange) :
    Serves sheet.cells disk ((Prod.map Answer.updates id <$>
      Workbook.commit (m := StateM (Disk path)) ⟨path, sheet⟩ (sheet.perform operation)).run disk) := by
  have after := stable.perform operation
  unfold Workbook.commit
  cases result : sheet.perform operation with
  | mk outcome next =>
    rw [result] at after
    cases outcome with
    | error fault =>
      have same := Sheet.sheet_of_error (by rw [result])
      rw [result] at same
      cases same
      exact .kept after rfl rfl
    | ok updates =>
      -- A refused write is answered by an undoing, which finds the journal of this very operation.
      have back := Sheet.undo_perform_of_ok change (by rw [result])
      rw [result] at back
      simp only [StateT.run_map, StateT.run_bind, Disk.writeListing_run]
      cases disk.refusal with
      | none => exact .saved rfl after rfl
      | some fault => exact .kept (after.perform .undo) back rfl

theorem load_serves (name : String) :
    Serves sheet.cells disk ((Prod.map Answer.updates id <$>
      Workbook.load (m := StateM (Disk path)) ⟨path, sheet⟩ name).run disk) := by
  unfold Workbook.load
  simp only [StateT.run_map, StateT.run_bind, Disk.readListing_run, pure_bind]
  cases Disk.listed (disk.readBytes name) with
  | error fault => exact .kept stable rfl rfl
  | ok entries =>
    simp only
    cases result : sheet.replay entries with
    | mk outcome next =>
      cases outcome with
      | error fault =>
        -- Part of the entries have been put in, and they are gone with the sheet that held them.
        obtain ⟨again, rebuilt, stable', same⟩ :=
          Workbook.rebuild_listing ⟨path, next⟩ stable.now fault
        simp only [rebuilt]
        exact .kept stable' same rfl
      | ok updates =>
        simp only [StateT.run_bind, Disk.writeListing_run]
        cases disk.refusal with
        | none => exact .saved rfl (stable.replay result) rfl
        | some cause =>
          obtain ⟨again, rebuilt, stable', same⟩ :=
            Workbook.rebuild_listing ⟨path, next⟩ stable.now (.file cause)
          simp only [pure_bind, rebuilt]
          exact .kept stable' same rfl

theorem clear_serves :
    Serves sheet.cells disk ((Prod.map Answer.cleared id <$>
      Workbook.clear (m := StateM (Disk path)) ⟨path, sheet⟩).run disk) := by
  unfold Workbook.clear
  simp only [StateT.run_map, StateT.run_bind, Disk.writeListing_run]
  cases disk.refusal with
  | none =>
    rw [← Sheet.empty_listing]
    exact .saved rfl Sheet.empty_stable rfl
  | some fault => exact .kept stable rfl rfl

theorem serve_serves (call : Call) : Serves sheet.cells disk
    ((Workbook.serve (m := StateM (Disk path)) ⟨path, sheet⟩ call).run disk) := by
  cases call with
  | edit cell text => exact commit_serves stable disk (.edit cell text) trivial
  | delete cell => exact commit_serves stable disk (.delete cell) trivial
  | copy dest source => exact commit_serves stable disk (.copy dest source) trivial
  | load name => exact load_serves stable disk name
  | clear => exact clear_serves stable disk
  | query cell => exact .kept stable rfl rfl
  | list => exact .kept stable rfl rfl

end

namespace Session

variable {path : String} {session : Session path}

/-- The workbook of a session is that of the file on its disk: another workbook that is opened there has
the same cells. -/
structure Agrees (session : Session path) : Prop where
  path : session.book.path = path
  stable : session.book.sheet.Stable
  held : session.disk.Holds session.book.sheet.cells

theorem serves (own : session.book.path = path) (stable : session.book.sheet.Stable) (event : Event) :
    Serves session.book.sheet.cells (session.disk.during event)
      (((session.serve event).1, (session.serve event).2.book), (session.serve event).2.disk) := by
  obtain ⟨⟨own', sheet⟩, disk⟩ := session
  change own' = path at own
  subst own
  exact serve_serves stable (disk.during event) event.call

theorem Agrees.serve (agrees : session.Agrees) (event : Event) : (session.serve event).2.Agrees := by
  obtain ⟨own, stable, held⟩ := agrees
  have served := serves own stable event
  generalize session.serve event = after at served ⊢
  obtain ⟨answer, book, disk⟩ := after
  change Serves _ _ ((answer, book), disk) at served
  cases served with
  | kept stable' same file =>
    refine ⟨rfl, stable', ?_⟩
    unfold Disk.Holds at held ⊢
    simp only [file, same]
    exact held
  | saved _ stable' file =>
    -- In whatever order the file was before, it is a listing now.
    obtain ⟨updates, again, replayed, same⟩ := Sheet.replay_listing stable'.now
    refine ⟨rfl, stable', again, ?_, same⟩
    simp only [file]
    rw [Disk.listed_written]
    exact .replayed replayed

theorem Agrees.run (agrees : session.Agrees) (events : List Event) : (session.run events).Agrees := by
  unfold Session.run
  induction events generalizing session with
  | nil => exact agrees
  | cons event rest ih => exact ih (agrees.serve event)

theorem agrees_of_openAt {disk next : Disk path} {book : Workbook}
    (opened : (Workbook.openAt (m := StateM (Disk path)) path).run disk = (.ok book, next)) :
    Agrees ⟨book, next⟩ := by
  obtain ⟨opens, same, rfl⟩ := Disk.openAt_run_iff.1 opened
  exact ⟨same, opens.stable, book.sheet, opens, rfl⟩

/-- Whatever calls an opened workbook has served, and whichever of their writes were refused, opening its
file again gives a workbook with the same listing and the same answers to all queries. -/
theorem reopens {disk next : Disk path} {book : Workbook}
    (opened : (Workbook.openAt (m := StateM (Disk path)) path).run disk = (.ok book, next))
    (events : List Event) :
    ∃ again, (Workbook.openAt (m := StateM (Disk path)) path).run (run ⟨book, next⟩ events).disk =
        (.ok again, (run ⟨book, next⟩ events).disk) ∧
      again.listing = (run ⟨book, next⟩ events).book.listing ∧
      ∀ cell, again.query cell = (run ⟨book, next⟩ events).book.query cell := by
  obtain ⟨_, _, sheet, opens, same⟩ := (agrees_of_openAt opened).run events
  refine ⟨⟨path, sheet⟩, Disk.openAt_run_iff.2 ⟨opens, rfl, rfl⟩, ?_, fun cell => ?_⟩
  · unfold Workbook.listing Sheet.listing
    rw [same]
  · unfold Workbook.query Sheet.query
    rw [same]

theorem reopens_after_refusals :
    (Workbook.openAt (m := StateM (Disk "sheet.json")) "sheet.json").run
        ⟨Disk.written [("a2", "a1+1"), ("a1", "2")], fun _ => .error .notFound, none⟩ =
      (.ok ⟨"sheet.json", (Sheet.empty.replay [("a2", "a1+1"), ("a1", "2")]).2⟩,
        ⟨Disk.written [("a2", "a1+1"), ("a1", "2")], fun _ => .error .notFound, none⟩) ∧
    ∃ again next, (Workbook.openAt (m := StateM (Disk "sheet.json")) "sheet.json").run
        (run ⟨⟨"sheet.json", (Sheet.empty.replay [("a2", "a1+1"), ("a1", "2")]).2⟩,
          ⟨Disk.written [("a2", "a1+1"), ("a1", "2")], fun _ => .error .notFound, none⟩⟩
          [⟨.copy "b2" "a2", fun _ => .error .notFound, none⟩,
            ⟨.delete "a1", fun _ => .error .notFound, some .isDirectory⟩,
            ⟨.load "more.json", fun _ => Disk.written [("a2", "7"), ("c1", "c1")], none⟩]).disk =
          (.ok again, next) ∧
        again.listing = [("a1", "2"), ("b2", "b1+1"), ("a2", "a1+1")] := by
  have replayed : (Sheet.empty.replay [("a2", "a1+1"), ("a1", "2")]).1 =
      .ok [(⟨0, 1⟩, 3), (⟨0, 0⟩, 2)] := by
    decide +kernel
  have opened := @Disk.openAt_run_written "sheet.json" _ _ replayed (fun _ => .error .notFound) none
  obtain ⟨again, reopened, listing, _⟩ := reopens opened _
  refine ⟨opened, again, _, reopened, listing.trans ?_⟩
  decide +kernel

end Session

end Worksheet
