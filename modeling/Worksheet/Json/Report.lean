import Worksheet.Json.Listing
import Worksheet.Sheet

/-! The answers of the command line as data: what an operation computed, and what a query tells. -/

namespace Worksheet.Json

def field (name : String) (value : List Char) : List Char :=
  quote name.toList ++ [':', ' '] ++ value

/-- What is not finite is written as nothing. -/
def number (x : Float) : List Char := (Decimal.dataChars? x).getD ['n', 'u', 'l', 'l']

def updatesText (updates : Updates) : String :=
  String.ofList (block '\x7b' '\x7d' 0 (updates.map fun (a, x) => field a.name (number x)))

def entryText (entry : Entry) : String :=
  String.ofList (block '\x7b' '\x7d' 0
    [field "formula" (quote entry.text.toList), field "value" (number entry.value)])

end Worksheet.Json
