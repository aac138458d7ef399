import Worksheet.Json.Quoted

/-! Listings as files: a list of pairs of texts. Writing puts every element on a line of its own;
reading accepts any blanks between symbols, and nothing else that is not strictly in the format. -/

namespace Worksheet.Json

def indent (level : Nat) : List Char := List.replicate (2 * level) ' '

def lines (level : Nat) : List (List Char) → List Char
  | [] => []
  | [item] => indent level ++ item
  | item :: rest => indent level ++ item ++ [',', '\n'] ++ lines level rest

def block (opening closing : Char) (level : Nat) (items : List (List Char)) : List Char :=
  if items.isEmpty then [opening, closing]
  else [opening, '\n'] ++ lines (level + 1) items ++ '\n' :: indent level ++ [closing]

def writePair (pair : String × String) : List Char :=
  block '[' ']' 1 [quote pair.1.toList, quote pair.2.toList]

def writeListing (pairs : List (String × String)) : List Char :=
  block '[' ']' 0 (pairs.map writePair)

def listingText (pairs : List (String × String)) : String := String.ofList (writeListing pairs)

inductive Symbol where
  | opening
  | closing
  | comma
  | text (cs : List Char)
deriving DecidableEq

/-- Where a reader stands: outside of quotes, or inside with the characters so far in reverse. -/
inductive Place where
  | outside
  | inside (mode : Mode) (read : List Char)

def isSpace (c : Char) : Bool := c = ' ' || c = '\t' || c = '\n' || c = '\r'

/-- The symbols of a text, when it is made of brackets, commas, quoted texts and blanks. -/
def symbols? : Place → List Char → Option (List Symbol)
  | .outside, [] => some []
  | .inside _ _, [] => none
  | .outside, c :: rest =>
      if c = '[' then (symbols? .outside rest).map (Symbol.opening :: ·)
      else if c = ']' then (symbols? .outside rest).map (Symbol.closing :: ·)
      else if c = ',' then (symbols? .outside rest).map (Symbol.comma :: ·)
      else if c = '"' then symbols? (.inside .plain []) rest
      else if isSpace c then symbols? .outside rest
      else none
  | .inside mode read, c :: rest =>
      if mode = .plain ∧ c = '"' then
        (symbols? .outside rest).map (Symbol.text read.reverse :: ·)
      else
        match mode.step? c with
        | some (next, some d) => symbols? (.inside next (d :: read)) rest
        | some (next, none) => symbols? (.inside next read) rest
        | none => none

def pairs? : List Symbol → Option (List (String × String))
  | .opening :: .text a :: .comma :: .text b :: .closing :: .comma :: rest =>
      (pairs? rest).map ((String.ofList a, String.ofList b) :: ·)
  | [.opening, .text a, .comma, .text b, .closing, .closing] =>
      some [(String.ofList a, String.ofList b)]
  | _ => none

def listingOfSymbols? : List Symbol → Option (List (String × String))
  | [.opening, .closing] => some []
  | .opening :: rest => pairs? rest
  | _ => none

def readListing? (text : String) : Option (List (String × String)) := do
  let symbols ← symbols? .outside text.toList
  listingOfSymbols? symbols

end Worksheet.Json
