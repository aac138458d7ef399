/-! Quoted text. A quote, a backslash and the control characters below the space are escaped when
text is written; when it is read, any character may be escaped, and one beyond the basic plane as
the two halves of its surrogate pair. -/

namespace Worksheet.Json

def hexDigit (value : Nat) : Char :=
  if value < 10 then Char.ofNat ('0'.toNat + value) else Char.ofNat ('a'.toNat + value - 10)

def hexValue? (c : Char) : Option Nat :=
  if '0' ≤ c ∧ c ≤ '9' then some (c.toNat - '0'.toNat)
  else if 'a' ≤ c ∧ c ≤ 'f' then some (c.toNat - 'a'.toNat + 10)
  else if 'A' ≤ c ∧ c ≤ 'F' then some (c.toNat - 'A'.toNat + 10)
  else none

def escape (c : Char) : List Char :=
  if c = '"' then ['\\', '"']
  else if c = '\\' then ['\\', '\\']
  else if c = '\x08' then ['\\', 'b']
  else if c = '\x0c' then ['\\', 'f']
  else if c = '\n' then ['\\', 'n']
  else if c = '\r' then ['\\', 'r']
  else if c = '\t' then ['\\', 't']
  else if c < ' ' then ['\\', 'u', '0', '0', hexDigit (c.toNat / 16), hexDigit (c.toNat % 16)]
  else [c]

def quote (cs : List Char) : List Char := '"' :: cs.flatMap escape ++ ['"']

/-- Where a reader stands inside quoted text: between characters, behind a backslash, among the four
hexadecimal digits of a code unit, or before the second half of a surrogate pair. -/
inductive Mode where
  | plain
  | escaped
  | unit (first : Option Nat) (count : Nat) (value : Nat)
  | secondEscape (first : Nat)
  | secondUnit (first : Nat)
deriving DecidableEq

namespace Mode

def ofEscape? : Char → Option Char
  | '"' => some '"'
  | '\\' => some '\\'
  | '/' => some '/'
  | 'b' => some '\x08'
  | 'f' => some '\x0c'
  | 'n' => some '\n'
  | 'r' => some '\r'
  | 't' => some '\t'
  | _ => none

/-- After a whole code unit. The first half of a pair waits for the second; neither half stands
alone. -/
def ofUnit? (first : Option Nat) (value : Nat) : Option (Mode × Option Char) :=
  let isFirst := decide (0xD800 ≤ value ∧ value < 0xDC00)
  let isSecond := decide (0xDC00 ≤ value ∧ value < 0xE000)
  match first with
  | none =>
      if isFirst then some (.secondEscape value, none)
      else if isSecond then none
      else some (.plain, some (Char.ofNat value))
  | some first =>
      if isSecond then
        some (.plain, some (Char.ofNat (0x10000 + (first - 0xD800) * 0x400 + (value - 0xDC00))))
      else none

def step? (mode : Mode) (c : Char) : Option (Mode × Option Char) :=
  match mode with
  | .plain =>
      if c = '\\' then some (.escaped, none)
      else if c < ' ' then none
      else some (.plain, some c)
  | .escaped =>
      if c = 'u' then some (.unit none 0 0, none)
      else (ofEscape? c).map fun d => (.plain, some d)
  | .unit first count value =>
      match hexValue? c with
      | some digit =>
          if count = 3 then ofUnit? first (16 * value + digit)
          else some (.unit first (count + 1) (16 * value + digit), none)
      | none => none
  | .secondEscape first => if c = '\\' then some (.secondUnit first, none) else none
  | .secondUnit first => if c = 'u' then some (.unit (some first) 0 0, none) else none

end Mode

end Worksheet.Json
