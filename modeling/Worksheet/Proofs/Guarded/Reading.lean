import Mathlib.Data.List.TakeWhile
import Worksheet.Proofs.Guarded.Parsing
import Worksheet.Proofs.Naming
import Worksheet.Proofs.Reading

/-! Guarded reading. Names, references and formulas are read without a stop, whatever the text. -/

namespace Worksheet.Guarded

/-! Names. -/

def bytes (cs : List Char) : Nat := (cs.map Char.utf8Size).sum

def cut : Nat → List Char → Except Stop (List Char × List Char)
  | 0, cs => .ok ([], cs)
  | _ + 1, [] => .error (.site .cut)
  | n + 1, c :: rest =>
      if c.utf8Size ≤ n + 1 then do
        let (front, back) ← cut (n + 1 - c.utf8Size) rest
        return (c :: front, back)
      else .error (.site .cut)

theorem cut_append (front back : List Char) : cut (bytes front) (front ++ back) = .ok (front, back) := by
  induction front with
  | nil =>
    unfold cut
    rfl
  | cons c rest ih =>
    obtain ⟨n, size⟩ : ∃ n, bytes (c :: rest) = n + 1 :=
      ⟨bytes (c :: rest) - 1, by
        have := c.utf8Size_pos
        unfold bytes
        rw [List.map_cons, List.sum_cons]
        omega⟩
    have split : bytes (c :: rest) = c.utf8Size + bytes rest := by
      unfold bytes
      rw [List.map_cons, List.sum_cons]
    rw [size, List.cons_append, cut, if_pos (by omega), show n + 1 - c.utf8Size = bytes rest by omega, ih]
    rfl

/-- The value of a column numeral from the value of its front, as long as it fits into 32 bits. -/
def ordinal (value : Nat) : List Char → Except Stop (Option Nat)
  | [] => .ok (some value)
  | c :: rest =>
      if c.isAlpha then do
        let digit ← subtract .letter c.toLower.toNat 'a'.toNat
        if 26 * value + (digit + 1) < 4294967296 then ordinal (26 * value + (digit + 1)) rest
        else return none
      else .ok none

def column (cs : List Char) : Except Stop (Option Index) := do
  if cs.isEmpty then
    return none
  match ← ordinal 0 cs with
  | none => return none
  | some value => if 0 < value then return Index.ofOrdinal? value else throw (.site .ordinal)

theorem toNat_toLower {c : Char} (alpha : c.isAlpha = true) : 'a'.toNat ≤ c.toLower.toNat := by
  have table : ∀ n : Fin 123, (Char.ofNat n.val).isAlpha = true →
      'a'.toNat ≤ (Char.ofNat n.val).toLower.toNat := by
    decide
  have small : c.toNat < 123 := by
    have := (Address.isAlpha_iff c).1 alpha
    omega
  exact Address.holds_below (p := fun c => c.isAlpha = true → 'a'.toNat ≤ c.toLower.toNat) table small alpha

def lettersFrom (value : Nat) (cs : List Char) : Nat :=
  cs.foldl (fun value c => 26 * value + Address.letterValue c) value

theorem le_lettersFrom (value : Nat) (cs : List Char) : value ≤ lettersFrom value cs := by
  induction cs generalizing value with
  | nil => exact Nat.le_refl value
  | cons c rest ih => exact Nat.le_trans (by omega) (ih (26 * value + Address.letterValue c))

theorem ordinal_eq {cs : List Char} (alpha : ∀ c ∈ cs, c.isAlpha = true) {value : Nat}
    (small : value < 4294967296) :
    ordinal value cs =
      .ok (if lettersFrom value cs < 4294967296 then some (lettersFrom value cs) else none) := by
  induction cs generalizing value with
  | nil =>
    rw [ordinal, if_pos (show lettersFrom value [] < 4294967296 from small)]
    rfl
  | cons c rest ih =>
    have letter := alpha c List.mem_cons_self
    have step : lettersFrom value (c :: rest) =
        lettersFrom (26 * value + Address.letterValue c) rest := rfl
    rw [ordinal, if_pos letter, subtract_of_le (toNat_toLower letter)]
    change (if 26 * value + Address.letterValue c < 4294967296 then
      ordinal (26 * value + Address.letterValue c) rest else .ok none) = _
    by_cases bound : 26 * value + Address.letterValue c < 4294967296
    · rw [if_pos bound, ih (fun d member => alpha d (List.mem_cons_of_mem c member)) bound, step]
    · have beyond := le_lettersFrom (26 * value + Address.letterValue c) rest
      rw [if_neg bound, if_neg (by omega)]

theorem column_eq {cs : List Char} (alpha : ∀ c ∈ cs, c.isAlpha = true) :
    column cs = .ok (Address.ofLetters? cs) := by
  unfold column Address.ofLetters?
  cases cs with
  | nil => rfl
  | cons c rest =>
    have value : Address.lettersValue (c :: rest) = lettersFrom 0 (c :: rest) := rfl
    have positive : 0 < lettersFrom 0 (c :: rest) := by
      have first := le_lettersFrom (26 * 0 + Address.letterValue c) rest
      change 0 < lettersFrom (26 * 0 + Address.letterValue c) rest
      unfold Address.letterValue at first ⊢
      omega
    rw [ordinal_eq alpha (by decide), value]
    by_cases bound : lettersFrom 0 (c :: rest) < 4294967296
    · rw [if_pos bound]
      exact if_pos positive
    · have none : Index.ofOrdinal? (lettersFrom 0 (c :: rest)) = none :=
        dif_neg fun both => bound both.2
      rw [if_neg bound, none]
      rfl

def address (cs : List Char) : Except Stop (Option Address) := do
  let unmarked := Address.dropMarker cs
  let (letters, behind) ← cut (bytes (unmarked.takeWhile Char.isAlpha)) unmarked
  match ← column letters with
  | none => return none
  | some col => return (Address.ofDigits? (Address.dropMarker behind)).map fun row => ⟨col, row⟩

theorem address_eq (cs : List Char) : address cs = .ok (Address.ofChars? cs) := by
  have halves := cut_append ((Address.dropMarker cs).takeWhile Char.isAlpha)
    ((Address.dropMarker cs).dropWhile Char.isAlpha)
  rw [List.takeWhile_append_dropWhile] at halves
  have letters : column ((Address.dropMarker cs).takeWhile Char.isAlpha) =
      .ok (Address.ofLetters? ((Address.dropMarker cs).takeWhile Char.isAlpha)) :=
    column_eq fun _ member => List.mem_takeWhile_imp member
  unfold address Address.ofChars?
  simp only [halves, letters, bind, Except.bind]
  cases Address.ofLetters? ((Address.dropMarker cs).takeWhile Char.isAlpha) with
  | none => rfl
  | some col =>
    cases Address.ofDigits? (Address.dropMarker ((Address.dropMarker cs).dropWhile Char.isAlpha)) with
    | none => rfl
    | some row => rfl

/-! References. -/

def coordinate (fixed : Bool) (index base : Index) : Except Stop Coord :=
  if fixed then .ok (.absolute index.val) else .relative <$> within (index.val - base.val)

/-- Reads a reference. The text behind its first byte tells whether the row is fixed. -/
def reference (base : Address) (cs : List Char) : Except Stop (Option Reference) := do
  match ← address cs with
  | none => return none
  | some target =>
      let (_, behind) ← cut 1 cs
      let col ← coordinate (cs.head? = some '$') target.col base.col
      let row ← coordinate (behind.contains '$') target.row base.row
      return some ⟨col, row⟩

theorem coordinate_eq (fixed : Bool) (index base : Index) :
    coordinate fixed index base = .ok (.of fixed index base) := by
  have bounds := index.isLt
  have bounds' := base.isLt
  unfold coordinate Coord.of
  rw [within_of_bounds (by omega) (by omega)]
  cases fixed with
  | true => rfl
  | false => rfl

theorem utf8Size_eq_one {c : Char} (small : c.toNat ≤ 127) : c.utf8Size = 1 := by
  unfold Char.utf8Size
  exact if_pos small

theorem exists_cons_of_address {cs : List Char} {a : Address}
    (named : Address.ofChars? cs = some a) : ∃ c rest, cs = c :: rest ∧ c.toNat ≤ 127 := by
  cases cs with
  | nil => cases named
  | cons c rest =>
    refine ⟨c, rest, rfl, ?_⟩
    by_cases marked : c = '$'
    · rw [marked]
      decide
    · by_cases alpha : c.isAlpha = true
      · have := (Address.isAlpha_iff c).1 alpha
        omega
      · have unmarked : Address.dropMarker (c :: rest) = c :: rest := by
          unfold Address.dropMarker
          split
          next same => exact absurd (List.cons.inj same).1 marked
          next => rfl
        unfold Address.ofChars? at named
        rw [unmarked] at named
        simp only [List.takeWhile_cons_of_neg alpha] at named
        cases named

theorem reference_eq (base : Address) (cs : List Char) :
    reference base cs = .ok (Reference.ofChars? base cs) := by
  unfold reference Reference.ofChars?
  rw [address_eq]
  cases named : Address.ofChars? cs with
  | none => rfl
  | some target =>
    obtain ⟨c, rest, rfl, small⟩ := exists_cons_of_address named
    have size : bytes [c] = 1 := utf8Size_eq_one small
    have behind := size ▸ cut_append [c] rest
    rw [List.singleton_append] at behind
    simp only [bind, Except.bind, behind, coordinate_eq]
    rfl

/-! Tokens. -/

def kind (base : Address) (lexeme : Lexeme) : Except Stop Token.Kind :=
  match lexeme.kind with
  | .reference => do
      match ← reference base lexeme.chars with
      | some r => return .reference r
      | none =>
          ofText (.error (.badReference (String.ofList lexeme.chars) lexeme.position.column))
  | _ => do
      match ← ofText (Token.kindOfLexeme base lexeme) with
      | some kind => return kind
      | none => throw (.site .lexeme)

def tokens (base : Address) : List Lexeme → Except Stop (List Token)
  | [] => .ok []
  | lexeme :: rest => do
      let kind ← kind base lexeme
      let behind ← tokens base rest
      return ⟨kind, String.ofList lexeme.chars, lexeme.position.column⟩ :: behind

theorem kind_eq (base : Address) {lexeme : Lexeme} (visible : lexeme.kind ≠ .blank) :
    ofText (Token.kindOfLexeme base lexeme) = (kind base lexeme).map some := by
  obtain ⟨shape, chars, position⟩ := lexeme
  unfold kind
  cases shape with
  | blank => exact absurd rfl visible
  | number =>
    unfold Token.kindOfLexeme
    cases Token.numberOfChars? chars with
    | none => rfl
    | some x => rfl
  | reference =>
    unfold Token.kindOfLexeme
    simp only [reference_eq]
    cases Reference.ofChars? base chars with
    | none => rfl
    | some r => rfl
  | name | plus | minus | times | divide | opening | closing | comma => rfl

/-- The blanks make no tokens, so they may go first. -/
theorem tokens_eq (base : Address) (lexemes : List Lexeme) :
    tokens base (lexemes.filter fun lexeme => lexeme.kind ≠ .blank) =
      ofText (Token.ofLexemes base lexemes) := by
  induction lexemes with
  | nil => rfl
  | cons lexeme rest ih =>
    rw [Token.ofLexemes, ofText_bind]
    simp only [ofText_bind]
    rw [← ih]
    by_cases blank : lexeme.kind = .blank
    · have none : Token.kindOfLexeme base lexeme = .ok none := by
        unfold Token.kindOfLexeme
        simp only [blank]
      rw [List.filter_cons_of_neg (by simp only [blank]; decide), none]
      cases tokens base (rest.filter fun lexeme => lexeme.kind ≠ .blank) with
      | ok behind => rfl
      | error stop => rfl
    · rw [List.filter_cons_of_pos (by simp only [ne_eq, blank, not_false_eq_true, decide_true]), tokens,
        kind_eq base blank]
      cases kind base lexeme with
      | error stop => rfl
      | ok found =>
        cases tokens base (rest.filter fun lexeme => lexeme.kind ≠ .blank) with
        | ok behind => rfl
        | error stop => rfl

def read (base : Address) (text : String) : Except Stop Formula := do
  let lexemes ← ofText ((Lexeme.scan text.toList).mapError .noLexeme)
  let tokens ← tokens base (lexemes.filter fun lexeme => lexeme.kind ≠ .blank)
  Cursor.parse ⟨tokens ++ [Token.finish text.toList.length], 0⟩

theorem read_eq (base : Address) (text : String) :
    read base text = ofText (Formula.read base text) := by
  unfold read Formula.read
  dsimp only
  cases found : Lexeme.scan text.toList with
  | error place =>
    have refused : Token.scan base text.toList = .error (.noLexeme place) := by
      unfold Token.scan
      rw [found]
    rw [refused]
    rfl
  | ok lexemes =>
    have scanned : Token.scan base text.toList = Token.ofLexemes base lexemes := by
      unfold Token.scan
      rw [found]
    change (tokens base (lexemes.filter fun lexeme => lexeme.kind ≠ .blank) >>= fun tokens => _) = _
    rw [tokens_eq, scanned]
    cases made : Token.ofLexemes base lexemes with
    | error cause => rfl
    | ok tokens =>
      have faces : Cursor.Faces ⟨tokens ++ [Token.finish text.toList.length], 0⟩ tokens
          (Token.finish text.toList.length) :=
        ⟨⟨[], rfl⟩, Token.kind_ne_finish (scanned.trans made), rfl⟩
      exact Cursor.parse_eq faces

end Worksheet.Guarded
