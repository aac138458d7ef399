import Worksheet.Blank
import Worksheet.Pattern

/-! The lexemes of a formula: the text is cut from the left, each time at the longest prefix that
some rule matches, and of several rules that match it the first one names the lexeme. -/

namespace Worksheet

/-- The rules, in the order in which they are tried. -/
inductive Lexeme.Kind where
  | number
  | reference
  | name
  | plus
  | minus
  | times
  | divide
  | opening
  | closing
  | comma
  | blank
deriving DecidableEq

namespace Lexeme.Kind

def all : List Lexeme.Kind :=
  [.number, .reference, .name, .plus, .minus, .times, .divide, .opening, .closing, .comma, .blank]

def label : Lexeme.Kind → String
  | .number => "NUM"
  | .reference => "REF"
  | .name => "NAME"
  | .plus => "+"
  | .minus => "-"
  | .times => "*"
  | .divide => "/"
  | .opening => "("
  | .closing => ")"
  | .comma => ","
  | .blank => "WS"

def digit : Pattern := .char Char.isDigit

def letter : Pattern := .char Char.isAlpha

def numberPattern : Pattern :=
  .seq
    (.alt (.seq digit.plus (.optional (.seq (.literal '.') (.star digit))))
      (.seq (.literal '.') digit.plus))
    (.optional (.seq (.char fun c => c = 'e' ∨ c = 'E')
      (.seq (.optional (.char fun c => c = '-' ∨ c = '+')) digit.plus)))

def referencePattern : Pattern :=
  .seq (.optional (.literal '$')) (.seq letter.plus (.seq (.optional (.literal '$')) digit.plus))

def namePattern : Pattern := .plus (.char fun c => c.isAlpha ∨ c = '_')

def pattern : Lexeme.Kind → Pattern
  | .number => numberPattern
  | .reference => referencePattern
  | .name => namePattern
  | .plus => .literal '+'
  | .minus => .literal '-'
  | .times => .literal '*'
  | .divide => .literal '/'
  | .opening => .literal '('
  | .closing => .literal ')'
  | .comma => .literal ','
  | .blank => .char isBlank

end Lexeme.Kind

/-- A place in a text. Only a line feed starts a new line. -/
structure Position where
  line : Nat
  column : Nat
deriving DecidableEq

namespace Position

def start : Position := ⟨1, 1⟩

def step (position : Position) (c : Char) : Position :=
  if c = '\n' then ⟨position.line + 1, 1⟩ else ⟨position.line, position.column + 1⟩

end Position

structure Lexeme where
  kind : Lexeme.Kind
  chars : List Char
  position : Position

namespace Lexeme

def better (best : Option (Kind × Nat)) (kind : Kind) (length : Option Nat) :
    Option (Kind × Nat) :=
  match best, length with
  | best, none => best
  | none, some n => some (kind, n)
  | some (earlier, m), some n => if m < n then some (kind, n) else some (earlier, m)

def longest? (cs : List Char) : Option (Kind × Nat) :=
  Kind.all.foldl (fun best kind => better best kind (kind.pattern.longestPrefix? cs)) none

/-- Cuts a text that starts at `position`, where the first `skip` characters belong to a lexeme that
has been cut already; fails with the place where no rule matches. -/
def scanFrom (skip : Nat) (position : Position) : List Char → Except Position (List Lexeme)
  | [] => .ok []
  | c :: rest =>
      match skip with
      | n + 1 => scanFrom n (position.step c) rest
      | 0 =>
          match longest? (c :: rest) with
          | some (kind, n + 1) =>
              match scanFrom n (position.step c) rest with
              | .ok lexemes => .ok (⟨kind, c :: rest.take n, position⟩ :: lexemes)
              | .error place => .error place
          | _ => .error position

def scan (cs : List Char) : Except Position (List Lexeme) := scanFrom 0 .start cs

end Lexeme

end Worksheet
