import Worksheet.FileTree
import Worksheet.Main
import Worksheet.Proofs.Naming
import Worksheet.Proofs.References
import Worksheet.Proofs.WellFormed
import Worksheet.Proofs.Reading
import Worksheet.Proofs.Decimal.Words
import Worksheet.Proofs.Decimal.Nearest
import Worksheet.Proofs.Decimal.Numerals
import Worksheet.Proofs.Lexing
import Worksheet.Proofs.Grammar
import Worksheet.Proofs.RoundTrip
import Worksheet.Proofs.Faults
import Worksheet.Proofs.Sheet.Records
import Worksheet.Proofs.Sheet.Actions
import Worksheet.Proofs.Sheet.Journal
import Worksheet.Proofs.Sheet.Settling
import Worksheet.Proofs.Sheet.Circles
import Worksheet.Proofs.Sheet.Intact
import Worksheet.Proofs.Sheet.Replacing
import Worksheet.Proofs.Sheet.History
import Worksheet.Proofs.Sheet.FromScratch
import Worksheet.Proofs.Sheet.Representation
import Worksheet.Proofs.Sheet.Outcomes
import Worksheet.Proofs.Sentences
import Worksheet.Proofs.Sheet.Undoing
import Worksheet.Proofs.Canonical
import Worksheet.Proofs.Json.RoundTrip
import Worksheet.Proofs.Sheet.Rebuilding
import Worksheet.Proofs.Placing
import Worksheet.Proofs.Sheet.Copying
import Worksheet.Proofs.Sheet.Depths
import Worksheet.Proofs.Sheet.Walks
import Worksheet.Proofs.Sheet.Reports
import Worksheet.Proofs.Sheet.Affected
import Worksheet.Proofs.Sheet.Independence
import Worksheet.Proofs.Sheet.Counting
import Worksheet.Proofs.Guarded.Stops
import Worksheet.Proofs.Guarded.Cursors
import Worksheet.Proofs.Guarded.Parsing
import Worksheet.Proofs.Guarded.Reading
import Worksheet.Proofs.Guarded.Formulas
import Worksheet.Proofs.Guarded.Actions
import Worksheet.Proofs.Guarded.Requests
import Worksheet.Proofs.Workbook.Disk
import Worksheet.Proofs.Workbook.Sessions
import Worksheet.Proofs.Workbook.Failures
import Worksheet.Proofs.Workbook.Processes
import Worksheet.Proofs.Prefixes
import Worksheet.Proofs.Sheet.Erasing
import Worksheet.Proofs.Sheet.Replays
import Worksheet.Proofs.Workbook.Loads
import Worksheet.Proofs.Spelling
import Worksheet.Proofs.Moving
import Worksheet.Proofs.LongestMatch
import Worksheet.Proofs.Spacing
import Worksheet.Proofs.Columns
import Worksheet.Proofs.Sheet.Feeding
import Worksheet.Proofs.Sheet.Descents
import Worksheet.Proofs.Contracts
