import Worksheet.Json.Report
import Worksheet.Workbook

/-! The command line: options that say which file holds the sheet, then one command with its
arguments. Everything about the arguments is settled before a file is touched. -/

namespace Worksheet

inductive Command where
  | clear
  | copy (dest source : String)
  | delete (cell : String)
  | list
  | eval (cell text : String)
  | load (path : String)
  | query (cell : String)
deriving DecidableEq

structure Invocation where
  path : String
  command : Command
deriving DecidableEq

namespace Command

def looksLikeOption (argument : String) : Bool :=
  argument.startsWith "-" && argument != "-"

/-- Every command has the options `-h` and `--help`, and `-hh` gives the first one twice. -/
def asksForHelp (argument : String) : Bool :=
  match argument.toList with
  | '-' :: '-' :: name => name.takeWhile (· ≠ '=') = "help".toList
  | '-' :: flags => !flags.isEmpty && flags.all (· = 'h')
  | _ => false

/-- The values of positional arguments. A double dash makes everything behind it a value; before
one, what looks like an option is a value only where `free` says so of its position, and if it does not
ask for help. -/
def positionals? (free : Nat → Bool) (position : Nat) : List String → Option (List String)
  | [] => some []
  | argument :: rest =>
      if argument = "--" then some rest
      else if looksLikeOption argument && (!free position || asksForHelp argument) then none
      else (positionals? free (position + 1) rest).map (argument :: ·)

def noFree (_ : Nat) : Bool := false

/-- Reads a command by its name. Cells are given by any of their names and kept by the canonical one;
the formula may look like an option. -/
def ofArguments? (name : String) (arguments : List String) : Option Command :=
  match name with
  | "clear" =>
      match positionals? noFree 0 arguments with
      | some [] => some .clear
      | _ => none
  | "copy" =>
      match positionals? noFree 0 arguments with
      | some [dest, source] => do
          let dest ← Address.canonicalName? dest
          let source ← Address.canonicalName? source
          return .copy dest source
      | _ => none
  | "delete" =>
      match positionals? noFree 0 arguments with
      | some [cell] => (Address.canonicalName? cell).map .delete
      | _ => none
  | "dump" =>
      match positionals? noFree 0 arguments with
      | some [] => some .list
      | _ => none
  | "eval" =>
      match positionals? (fun position => position = 1) 0 arguments with
      | some [cell, text] => (Address.canonicalName? cell).map fun cell => .eval cell text
      | _ => none
  | "load" =>
      match positionals? noFree 0 arguments with
      | some [path] => if path = "" then none else some (.load path)
      | _ => none
  | "query" =>
      match positionals? noFree 0 arguments with
      | some [cell] => (Address.canonicalName? cell).map .query
      | _ => none
  | _ => none

end Command

namespace Invocation

def defaultPath : String := "sheet.json"

def attachedPath? (argument : String) : Option String :=
  let cs := argument.toList
  if "--store=".toList.isPrefixOf cs then some (String.ofList (cs.drop 8))
  else if argument.startsWith "-s" then
    match cs.drop 2 with
    | '=' :: value => some (String.ofList value)
    | value => some (String.ofList value)
  else none

def ofArguments? (path : Option String) : List String → Option Invocation
  | [] => none
  | argument :: rest =>
      if argument = "--store" ∨ argument = "-s" then
        match rest with
        | [] => none
        | value :: rest =>
            if path.isSome ∨ value = "" ∨ Command.looksLikeOption value then none
            else ofArguments? (some value) rest
      else
        match attachedPath? argument with
        | some value =>
            if path.isSome ∨ value = "" then none else ofArguments? (some value) rest
        | none =>
            (Command.ofArguments? argument rest).map fun command =>
              ⟨path.getD defaultPath, command⟩

end Invocation

/-- How a command line ends: with a text to print, with a fault, or before it has begun. -/
inductive Outcome where
  | done (text : String)
  | failed (fault : Fault)
  | misused

namespace Outcome

def usage : String :=
  "usage: sheet [--store FILE] COMMAND\n" ++
    "commands: clear, copy DEST SRC, delete CELL, dump, eval CELL FORMULA, load FILE, query CELL\n"

def code : Outcome → Nat
  | .done _ => 0
  | .failed _ => 1
  | .misused => 2

def output : Outcome → String
  | .done text => text
  | _ => ""

def errors : Outcome → String
  | .done _ => ""
  | .failed fault => fault.code ++ ": " ++ fault.message ++ "\n"
  | .misused => usage

end Outcome

namespace Invocation

variable {m : Type → Type} [Monad m] [FileAccess m]

def updatesAnswer (outcome : Except Fault Updates × Workbook) : Except Fault String :=
  outcome.1.map fun updates => Json.updatesText updates ++ "\n"

def run (invocation : Invocation) : m (Except Fault String) := do
  match ← Workbook.openAt invocation.path with
  | .error fault => return .error fault
  | .ok book =>
      match invocation.command with
      | .clear => return (← book.clear).1.map fun _ => ""
      | .copy dest source => return updatesAnswer (← book.copy dest source)
      | .delete cell => return updatesAnswer (← book.delete cell)
      | .list => return .ok (Json.listingText book.listing ++ "\n")
      | .eval cell text => return updatesAnswer (← book.edit cell text)
      | .load path => return updatesAnswer (← book.load path)
      | .query cell => return .ok (Json.entryText (book.query cell) ++ "\n")

def runArguments (arguments : List String) : m Outcome := do
  match ofArguments? none arguments with
  | none => return .misused
  | some invocation =>
      match ← invocation.run with
      | .ok text => return .done text
      | .error fault => return .failed fault

end Invocation

end Worksheet
