import Worksheet.Proofs.Json.RoundTrip
import Worksheet.Proofs.Sheet.Rebuilding
import Worksheet.Workbook

/-! Disks. One file of a disk belongs to a workbook, and nobody else writes it. The system may refuse a
write, which then leaves the file as it was. What the other files hold is left open. -/

namespace Worksheet

/-- What the file at `path` holds, what the other files hold, and the fault with which the system
refuses to write, if it does. -/
structure Disk (path : String) where
  file : Except FileFault ByteArray
  others : String → Except FileFault ByteArray
  refusal : Option FileFault

namespace Disk

variable {path : String}

def readBytes (disk : Disk path) (name : String) : Except FileFault ByteArray :=
  if name = path then disk.file else disk.others name

def replace (disk : Disk path) (name text : String) : Except FileFault Unit × Disk path :=
  if name = path then
    match disk.refusal with
    | some fault => (.error fault, disk)
    | none => (.ok (), { disk with file := .ok text.toUTF8 })
  else (.ok (), disk)

instance : FileAccess (StateM (Disk path)) where
  readBytes name := do return (← get).readBytes name
  replace name text := modifyGet fun disk => disk.replace name text

def listed (file : Except FileFault ByteArray) : Except Fault (List (String × String)) :=
  match file with
  | .error cause => .error (.file cause)
  | .ok bytes =>
      match String.fromUTF8? bytes with
      | none => .error (.file .notText)
      | some text =>
          match Json.readListing? text with
          | none => .error .badListing
          | some entries => .ok entries

def written (entries : List (String × String)) : Except FileFault ByteArray :=
  .ok (Json.listingText entries).toUTF8

/-- The sheet that a workbook opens with, by what its file lists. -/
inductive Opens : Except Fault (List (String × String)) → Sheet → Prop
  | missing : Opens (.error (.file .notFound)) .empty
  | replayed {entries : List (String × String)} {updates : Updates} {sheet : Sheet}
      (result : Sheet.empty.replay entries = (.ok updates, sheet)) : Opens (.ok entries) sheet

def Holds (disk : Disk path) (cells : Cells) : Prop :=
  ∃ sheet, Opens (listed disk.file) sheet ∧ sheet.cells = cells

theorem Opens.stable {listing : Except Fault (List (String × String))} {sheet : Sheet}
    (opens : Opens listing sheet) : sheet.Stable := by
  cases opens with
  | missing => exact Sheet.empty_stable
  | replayed result => exact Sheet.empty_stable.replay result

variable {disk : Disk path}

theorem readBytes_path : disk.readBytes path = disk.file := if_pos rfl

theorem replace_path (text : String) : disk.replace path text =
    match disk.refusal with
    | some fault => (.error fault, disk)
    | none => (.ok (), { disk with file := .ok text.toUTF8 }) := if_pos rfl

theorem listed_written (entries : List (String × String)) : listed (written entries) = .ok entries := by
  have decoded : String.fromUTF8? (Json.listingText entries).toUTF8 =
      some (Json.listingText entries) := dif_pos (Json.listingText entries).isValidUTF8
  unfold listed written
  simp only [decoded, Json.readListing?_listingText]

theorem readListing_run (name : String) :
    (Workbook.readListing (m := StateM (Disk path)) name).run disk =
      pure (listed (disk.readBytes name), disk) := by
  unfold Workbook.readListing readText listed
  simp only [FileAccess.readBytes, StateT.run_bind, StateT.run_get, pure_bind, StateT.run_pure]
  cases disk.readBytes name with
  | error cause => rfl
  | ok bytes =>
    simp only
    cases String.fromUTF8? bytes with
    | none => rfl
    | some text =>
      simp only [pure_bind, StateT.run_pure]
      cases Json.readListing? text with
      | none => rfl
      | some entries => rfl

theorem writeListing_run (entries : List (String × String)) :
    (Workbook.writeListing (m := StateM (Disk path)) path entries).run disk =
      pure (match disk.refusal with
        | some fault => (.error (.file fault), disk)
        | none => (.ok (), { disk with file := written entries })) := by
  unfold Workbook.writeListing written
  simp only [FileAccess.replace, StateT.run_bind, StateT.run_modifyGet, replace_path]
  cases disk.refusal with
  | some cause => rfl
  | none => rfl

theorem openAt_run_iff {book : Workbook} {next : Disk path} :
    (Workbook.openAt (m := StateM (Disk path)) path).run disk = (.ok book, next) ↔
      Opens (listed disk.file) book.sheet ∧ book.path = path ∧ next = disk := by
  unfold Workbook.openAt
  rw [StateT.run_bind, readListing_run, readBytes_path, pure_bind]
  generalize listed disk.file = answer
  simp only
  constructor
  · intro opened
    split at opened
    next =>
      cases opened
      exact ⟨.missing, rfl, rfl⟩
    next => cases opened
    next entries =>
      split at opened
      next result =>
        cases opened
        exact ⟨.replayed result, rfl, rfl⟩
      next => cases opened
  · rintro ⟨opens, path, rfl⟩
    obtain ⟨_, sheet⟩ := book
    cases path
    cases opens with
    | missing => rfl
    | replayed result =>
      simp only [result]
      rfl

theorem openAt_run_written {entries : List (String × String)} {updates : Updates}
    (done : (Sheet.empty.replay entries).1 = .ok updates)
    (others : String → Except FileFault ByteArray) (refusal : Option FileFault) :
    (Workbook.openAt (m := StateM (Disk path)) path).run ⟨written entries, others, refusal⟩ =
      (.ok ⟨path, (Sheet.empty.replay entries).2⟩, ⟨written entries, others, refusal⟩) := by
  refine openAt_run_iff.2 ⟨?_, rfl, rfl⟩
  simp only [listed_written]
  exact .replayed (Prod.ext done rfl)

end Disk

end Worksheet
