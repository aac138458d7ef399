import Worksheet.Json.Listing
import Worksheet.Sheet

/-! Sheets kept in files. The file holds the listing of the sheet, so replaying it from the front
rebuilds the sheet; every operation that changes the sheet writes the file, and a change whose file
cannot be written is taken back. -/

namespace Worksheet

structure Workbook where
  path : String
  sheet : Sheet

namespace Workbook

variable {m : Type → Type} [Monad m] [FileAccess m]

def readListing (path : String) : m (Except Fault (List (String × String))) := do
  match ← readText path with
  | .error cause => return .error (.file cause)
  | .ok text =>
      match Json.readListing? text with
      | some entries => return .ok entries
      | none => return .error .badListing

def writeListing (path : String) (entries : List (String × String)) :
    m (Except Fault Unit) := do
  match ← FileAccess.replace path (Json.listingText entries) with
  | .error cause => return .error (.file cause)
  | .ok () => return .ok ()

def openAt (path : String) : m (Except Fault Workbook) := do
  match ← readListing path with
  | .error (.file .notFound) => return .ok ⟨path, .empty⟩
  | .error fault => return .error fault
  | .ok entries =>
      match Sheet.empty.replay entries with
      | (.ok _, sheet) => return .ok ⟨path, sheet⟩
      | (.error fault, _) => return .error fault

/-- Writes what an operation made of the sheet; undoes the operation when that fails. -/
def commit (book : Workbook) (outcome : Except Fault Updates × Sheet) :
    m (Except Fault Updates × Workbook) := do
  match outcome with
  | (.error fault, sheet) => return (.error fault, { book with sheet })
  | (.ok updates, sheet) =>
      match ← writeListing book.path sheet.listing with
      | .ok () => return (.ok updates, { book with sheet })
      | .error fault => return (.error fault, { book with sheet := sheet.undo })

def edit (book : Workbook) (cell text : String) : m (Except Fault Updates × Workbook) :=
  book.commit (book.sheet.edit cell text)

def delete (book : Workbook) (cell : String) : m (Except Fault Updates × Workbook) :=
  book.commit (book.sheet.delete cell)

def copy (book : Workbook) (dest source : String) : m (Except Fault Updates × Workbook) :=
  book.commit (book.sheet.copy dest source)

/-- Empties the file and then the sheet, which stays as it is when the file cannot be written. -/
def clear (book : Workbook) : m (Except Fault Unit × Workbook) := do
  match ← writeListing book.path [] with
  | .ok () => return (.ok (), { book with sheet := book.sheet.clear })
  | .error fault => return (.error fault, book)

def rebuild (book : Workbook) (before : List (String × String)) (fault : Fault) :
    Except Fault Updates × Workbook :=
  match Sheet.empty.replay before with
  | (.ok _, sheet) => (.error fault, { book with sheet })
  | (.error other, _) => (.error other, book)

/-- Replays the listing of another file into the sheet. When an entry fails or the file of the sheet
cannot be written, the sheet is rebuilt as it was. -/
def load (book : Workbook) (path : String) : m (Except Fault Updates × Workbook) := do
  match ← readListing path with
  | .error fault => return (.error fault, book)
  | .ok entries =>
      let before := book.sheet.listing
      match book.sheet.replay entries with
      | (.error fault, sheet) => return rebuild { book with sheet } before fault
      | (.ok updates, sheet) =>
          match ← writeListing book.path sheet.listing with
          | .ok () => return (.ok updates, { book with sheet })
          | .error fault => return rebuild { book with sheet } before fault

def query (book : Workbook) (cell : String) : Entry := book.sheet.query cell

def listing (book : Workbook) : List (String × String) := book.sheet.listing

end Workbook

end Worksheet
