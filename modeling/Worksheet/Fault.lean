import Worksheet.Files
import Worksheet.Lexeme
import Worksheet.Operator
import Worksheet.Token

/-! Why an operation fails, with the codes and messages that report it. -/

namespace Worksheet

inductive FormulaFault where
  | noLexeme (place : Position)
  | badNumber (text : String) (column : Nat)
  | badReference (text : String) (column : Nat)
  | unexpected (token : Token)
  | unknownFunction (token : Token)
  | placedOutside (base : Address)
  | readOutside (base : Address)
deriving DecidableEq

namespace FormulaFault

def expectedLabels : String :=
  String.intercalate ", " (Lexeme.Kind.all.map fun kind => "\"" ++ kind.label ++ "\"")

def message : FormulaFault → String
  | .noLexeme place =>
      "Error: Expecting one of the following " ++ toString Lexeme.Kind.all.length ++
        " lexemes: " ++ expectedLabels ++
        "\nAt: (" ++ toString place.line ++ ", " ++ toString place.column ++ ")" ++
        "\nWith states stack: [\"DEFAULT\"]"
  | .badNumber text column => "bad number '" ++ text ++ "' at column " ++ toString column
  | .badReference text column =>
      "bad cell reference '" ++ text ++ "' at column " ++ toString column
  | .unexpected token => "unexpected " ++ token.describe
  | .unknownFunction token => "unknown function " ++ token.describe
  | .placedOutside base => "reference falls outside the sheet when placed in " ++ base.name
  | .readOutside base => "reference outside the sheet from " ++ base.name

end FormulaFault

/-- A file is no listing in whichever way it is none: where its reader stops, and at what, is not part of the fault. -/
inductive Fault where
  | formula (cause : FormulaFault)
  | circular (cell : String)
  | badName (text : String)
  | file (cause : FileFault)
  | badListing
  | operands (operator : Operator) (count : Nat)
deriving DecidableEq

namespace Fault

def code : Fault → String
  | .formula _ => "SYNTAX"
  | .circular _ => "CIRCULAR_REF"
  | .badName _ => "INVALID_CELL"
  | .file _ => "IO"
  | .badListing => "JSON"
  | .operands _ _ => "OPERANDS"

def message : Fault → String
  | .formula cause => "syntax error: " ++ cause.message
  | .circular cell => "circular ref involving " ++ cell
  | .badName text => "Invalid cell name: " ++ text
  | .file cause => cause.message
  | .badListing => "expected a list of pairs of strings"
  | .operands operator count =>
      operator.symbol ++ " applied to " ++ toString count ++ " operands"

end Fault

end Worksheet
