import Worksheet.Command
import Worksheet.Proofs.Workbook.Failures

/-! Processes. The program opens its file anew for each command and has nothing else from the commands
before. What it finds there has the cells of a workbook that has served all commands so far, and only
the cells have a say in an answer; so nothing that the program prints tells whether one process served
all commands or each command had its own. -/

namespace Worksheet

def Command.call : Command → Call
  | .clear => .clear
  | .copy dest source => .copy dest source
  | .delete cell => .delete cell
  | .list => .list
  | .eval cell text => .edit cell text
  | .load path => .load path
  | .query cell => .query cell

def Answer.text : Answer → Except Fault String
  | .updates outcome => outcome.map fun updates => Json.updatesText updates ++ "\n"
  | .cleared outcome => outcome.map fun _ => ""
  | .entry told => .ok (Json.entryText told ++ "\n")
  | .listing entries => .ok (Json.listingText entries ++ "\n")

def Answer.outcome (answer : Answer) : Outcome :=
  match answer.text with
  | .ok text => .done text
  | .error fault => .failed fault

theorem Workbook.rebuild_fst (one other : Workbook) (before : List (String × String))
    (fault : Fault) : (one.rebuild before fault).1 = (other.rebuild before fault).1 := by
  unfold rebuild
  rcases Sheet.empty.replay before with ⟨cause | updates, next⟩
  · rfl
  · rfl

section

variable {path : String} (disk : Disk path) {one other : Sheet} (same : one.cells = other.cells)

include same

theorem load_congr (name : String) :
    ((Workbook.load (m := StateM (Disk path)) ⟨path, one⟩ name).run disk).1.1 =
        ((Workbook.load (m := StateM (Disk path)) ⟨path, other⟩ name).run disk).1.1 ∧
      ((Workbook.load (m := StateM (Disk path)) ⟨path, one⟩ name).run disk).2 =
        ((Workbook.load (m := StateM (Disk path)) ⟨path, other⟩ name).run disk).2 := by
  unfold Workbook.load
  simp only [StateT.run_bind, Disk.readListing_run, pure_bind]
  cases Disk.listed (disk.readBytes name) with
  | error cause => exact ⟨rfl, rfl⟩
  | ok entries =>
    obtain ⟨outcome, cells⟩ := Sheet.replay_congr same entries
    simp only [Sheet.listing_congr same]
    generalize one.replay entries = first at outcome cells ⊢
    generalize other.replay entries = second at outcome cells ⊢
    obtain ⟨result, mine⟩ := first
    obtain ⟨_, yours⟩ := second
    cases outcome
    cases result with
    | error fault => exact ⟨Workbook.rebuild_fst _ _ _ fault, rfl⟩
    | ok updates =>
      simp only [StateT.run_bind, Disk.writeListing_run, Sheet.listing_congr cells]
      cases disk.refusal with
      | none => exact ⟨rfl, rfl⟩
      | some cause => exact ⟨Workbook.rebuild_fst _ _ _ (.file cause), rfl⟩

/-- What a workbook answers and writes is settled by its cells. -/
theorem serve_congr (call : Call) :
    ((Workbook.serve (m := StateM (Disk path)) ⟨path, one⟩ call).run disk).1.1 =
        ((Workbook.serve (m := StateM (Disk path)) ⟨path, other⟩ call).run disk).1.1 ∧
      ((Workbook.serve (m := StateM (Disk path)) ⟨path, one⟩ call).run disk).2 =
        ((Workbook.serve (m := StateM (Disk path)) ⟨path, other⟩ call).run disk).2 := by
  have changed : ∀ operation, operation ≠ .undo →
      (Prod.map Answer.updates id <$>
          Workbook.commit (m := StateM (Disk path)) ⟨path, one⟩ (one.perform operation)).run disk =
        (Prod.map Answer.updates id <$>
          Workbook.commit (m := StateM (Disk path)) ⟨path, other⟩ (other.perform operation)).run disk := by
    intro operation forward
    rw [Sheet.perform_congr same forward]
    rfl
  cases call with
  | edit cell text =>
    have edited := changed (.edit cell text) nofun
    exact ⟨congrArg (·.1.1) edited, congrArg (·.2) edited⟩
  | delete cell =>
    have deleted := changed (.delete cell) nofun
    exact ⟨congrArg (·.1.1) deleted, congrArg (·.2) deleted⟩
  | copy dest source =>
    have copied := changed (.copy dest source) nofun
    exact ⟨congrArg (·.1.1) copied, congrArg (·.2) copied⟩
  | load name =>
    obtain ⟨answer, disk⟩ := load_congr disk same name
    exact ⟨congrArg Answer.updates answer, disk⟩
  | clear =>
    unfold Workbook.serve Workbook.clear
    simp only [StateT.run_map, StateT.run_bind, Disk.writeListing_run]
    cases disk.refusal with
    | none => exact ⟨rfl, rfl⟩
    | some cause => exact ⟨rfl, rfl⟩
  | query cell => exact ⟨congrArg Answer.entry (Sheet.query_congr same cell), rfl⟩
  | list => exact ⟨congrArg Answer.listing (Sheet.listing_congr same), rfl⟩

end

theorem run_of_openAt {path : String} {disk next : Disk path} {book : Workbook}
    (opened : (Workbook.openAt (m := StateM (Disk path)) path).run disk = (.ok book, next))
    (command : Command) :
    (Invocation.run (m := StateM (Disk path)) ⟨path, command⟩).run disk =
      (((book.serve (m := StateM (Disk path)) command.call).run next).1.1.text,
        ((book.serve (m := StateM (Disk path)) command.call).run next).2) := by
  unfold Invocation.run
  rw [StateT.run_bind]
  simp only [opened]
  cases command with
  | clear => rfl
  | copy dest source => rfl
  | delete cell => rfl
  | list => rfl
  | eval cell text => rfl
  | load path => rfl
  | query cell => rfl

/-- A command line for the workbook at `path`, what the other files hold when it is run, and the fault
that its write meets, if any. -/
structure Launch (path : String) where
  arguments : List String
  command : Command
  accepted : Invocation.ofArguments? none arguments = some ⟨path, command⟩
  others : String → Except FileFault ByteArray
  refusal : Option FileFault

namespace Launch

variable {path : String}

def event (launch : Launch path) : Event := ⟨launch.command.call, launch.others, launch.refusal⟩

@[simp] theorem event_call (launch : Launch path) : launch.event.call = launch.command.call := rfl

def run (launch : Launch path) (disk : Disk path) : Outcome × Disk path :=
  (Invocation.runArguments (m := StateM (Disk path)) launch.arguments).run
    (disk.during launch.event)

def outcomes (disk : Disk path) : List (Launch path) → List Outcome
  | [] => []
  | launch :: rest => (launch.run disk).1 :: outcomes (launch.run disk).2 rest

theorem run_eq_serve {session : Session path} (agrees : session.Agrees) (launch : Launch path) :
    launch.run session.disk =
      ((session.serve launch.event).1.outcome, (session.serve launch.event).2.disk) := by
  obtain ⟨⟨own, sheet⟩, disk⟩ := session
  obtain ⟨same, _, found, opens, cells⟩ := agrees
  change own = path at same
  subst same
  have opened : (Workbook.openAt (m := StateM (Disk own)) own).run (disk.during launch.event) =
      (.ok ⟨own, found⟩, disk.during launch.event) :=
    Disk.openAt_run_iff.2 ⟨opens, rfl, rfl⟩
  -- A new process has read the file, and the session has the same cells in hand.
  obtain ⟨answer, left⟩ := serve_congr (disk.during launch.event) cells launch.command.call
  unfold run Invocation.runArguments
  simp only [launch.accepted]
  rw [StateT.run_bind, run_of_openAt opened, answer, left]
  unfold Session.serve Answer.outcome
  simp only [event_call]
  generalize Answer.text _ = text
  cases text with
  | ok text => rfl
  | error fault => rfl

end Launch

namespace Session

variable {path : String}

def answers (session : Session path) : List Event → List Answer
  | [] => []
  | event :: rest => (session.serve event).1 :: (session.serve event).2.answers rest

theorem Agrees.outcomes_eq {session : Session path} (agrees : session.Agrees)
    (launches : List (Launch path)) :
    Launch.outcomes session.disk launches =
      (session.answers (launches.map Launch.event)).map Answer.outcome := by
  induction launches generalizing session with
  | nil => rfl
  | cons launch rest ih =>
    unfold Launch.outcomes
    rw [Launch.run_eq_serve agrees launch, ih (agrees.serve launch.event)]
    rfl

/-- Processes that each serve one command line end as the answers say that one workbook gives, opened
once, to the same commands. -/
theorem outcomes_of_openAt {disk next : Disk path} {book : Workbook}
    (opened : (Workbook.openAt (m := StateM (Disk path)) path).run disk = (.ok book, next))
    (launches : List (Launch path)) :
    Launch.outcomes disk launches =
      (answers ⟨book, next⟩ (launches.map Launch.event)).map Answer.outcome := by
  have agrees := agrees_of_openAt opened
  obtain ⟨_, _, rfl⟩ := Disk.openAt_run_iff.1 opened
  exact agrees.outcomes_eq launches

theorem outcomes_from_missing_file :
    ∃ launches : List (Launch "sheet.json"),
      launches.map Launch.arguments =
        [["--store=sheet.json", "eval", "$B1", "a1+1"], ["-s", "sheet.json", "eval", "a1", "b1"],
          ["eval", "a1", "2"], ["eval", "a1", "2"], ["query", "B1"]] ∧
      Launch.outcomes (new "sheet.json").disk launches =
        ((new "sheet.json").answers (launches.map Launch.event)).map Answer.outcome ∧
      (Launch.outcomes (new "sheet.json").disk launches).map Outcome.code = [0, 1, 1, 0, 0] ∧
      (Launch.outcomes (new "sheet.json").disk launches).map Outcome.output =
        ["\x7b\n  \"b1\": 1.0\n\x7d\n", "", "", "\x7b\n  \"a1\": 2.0,\n  \"b1\": 3.0\n\x7d\n",
          "\x7b\n  \"formula\": \"a1+1\",\n  \"value\": 3.0\n\x7d\n"] ∧
      (Launch.outcomes (new "sheet.json").disk launches).map Outcome.errors =
        ["", "CIRCULAR_REF: circular ref involving a1\n", "IO: No space left on device (os error 28)\n", "",
          ""] := by
  have opens : Disk.Opens (Disk.listed (new "sheet.json").disk.file) (new "sheet.json").book.sheet :=
    .missing
  refine ⟨[⟨_, .eval "b1" "a1+1", ?_, fun _ => .error .notFound, none⟩,
    ⟨_, .eval "a1" "b1", ?_, fun _ => .error .notFound, none⟩,
    ⟨_, .eval "a1" "2", ?_, fun _ => .error .notFound, some (.system 28 "No space left on device")⟩,
    ⟨_, .eval "a1" "2", ?_, fun _ => .error .notFound, none⟩,
    ⟨_, .query "b1", ?_, fun _ => .error .notFound, none⟩], rfl,
    outcomes_of_openAt (Disk.openAt_run_iff.2 ⟨opens, rfl, rfl⟩) _, ?_, ?_, ?_⟩
  all_goals decide +kernel

end Session

end Worksheet
