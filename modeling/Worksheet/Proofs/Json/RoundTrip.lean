import Mathlib.Tactic
import Worksheet.Json.Listing

/-! Listings are read back from their files. Every part of a written listing yields its own symbols,
whatever follows it, and the symbols of the whole are those of the pairs in order. -/

namespace Worksheet.Json

section

variable {mode next : Mode} {c d : Char} {read rest : List Char}

theorem symbols?_inside (within : ¬ (mode = .plain ∧ c = '"'))
    (step : mode.step? c = some (next, some d)) :
    symbols? (.inside mode read) (c :: rest) = symbols? (.inside next (d :: read)) rest := by
  rw [symbols?, if_neg within, step]

theorem symbols?_inside_none (within : ¬ (mode = .plain ∧ c = '"'))
    (step : mode.step? c = some (next, none)) :
    symbols? (.inside mode read) (c :: rest) = symbols? (.inside next read) rest := by
  rw [symbols?, if_neg within, step]

theorem symbols?_backslash :
    symbols? (.inside .plain read) ('\\' :: rest) = symbols? (.inside .escaped read) rest :=
  symbols?_inside_none (by decide) rfl

theorem symbols?_letter (letter : Mode.ofEscape? c = some d) (short : c ≠ 'u') :
    symbols? (.inside .plain read) ('\\' :: c :: rest) =
      symbols? (.inside .plain (d :: read)) rest := by
  rw [symbols?_backslash]
  refine symbols?_inside (fun both => nomatch both.1) ?_
  rw [Mode.step?, if_neg short, letter]
  rfl

end

theorem hexValue?_hexDigit {value : Nat} (small : value < 16) :
    hexValue? (hexDigit value) = some value := by
  have table : ∀ v : Fin 16, hexValue? (hexDigit v.val) = some v.val := by decide
  exact table ⟨value, small⟩

theorem symbols?_digit {first : Option Nat} {count value digit : Nat} {read rest : List Char}
    (small : digit < 16) (short : count ≠ 3) :
    symbols? (.inside (.unit first count value) read) (hexDigit digit :: rest) =
      symbols? (.inside (.unit first (count + 1) (16 * value + digit)) read) rest := by
  refine symbols?_inside_none (by simp) ?_
  rw [Mode.step?, hexValue?_hexDigit small]
  exact if_neg short

theorem symbols?_control {c : Char} {read rest : List Char} (control : c.toNat < 32) :
    symbols? (.inside .plain read)
        ('\\' :: 'u' :: '0' :: '0' :: hexDigit (c.toNat / 16) :: hexDigit (c.toNat % 16) :: rest) =
      symbols? (.inside .plain (c :: read)) rest := by
  have value : 16 * (16 * (16 * (16 * 0 + 0) + 0) + c.toNat / 16) + c.toNat % 16 = c.toNat := by
    omega
  have start : symbols? (.inside .escaped read)
      ('u' :: '0' :: '0' :: hexDigit (c.toNat / 16) :: hexDigit (c.toNat % 16) :: rest) =
      symbols? (.inside (.unit none 0 0) read)
        (hexDigit 0 :: hexDigit 0 :: hexDigit (c.toNat / 16) :: hexDigit (c.toNat % 16) :: rest) :=
    symbols?_inside_none (by decide) rfl
  rw [symbols?_backslash, start, symbols?_digit (by decide) (by decide),
    symbols?_digit (by decide) (by decide), symbols?_digit (by omega) (by decide)]
  refine symbols?_inside (by simp) ?_
  rw [Mode.step?, hexValue?_hexDigit (by omega)]
  simp only [if_pos, value]
  unfold Mode.ofUnit?
  have first : ¬ (0xD800 ≤ c.toNat ∧ c.toNat < 0xDC00) := by omega
  have second : ¬ (0xDC00 ≤ c.toNat ∧ c.toNat < 0xE000) := by omega
  simp [first, second]

def escapes : List (Char × Char) :=
  [('"', '"'), ('\\', '\\'), ('\x08', 'b'), ('\x0c', 'f'), ('\n', 'n'), ('\r', 'r'), ('\t', 't')]

theorem escape_of_mem : ∀ entry ∈ escapes, escape entry.1 = ['\\', entry.2] ∧
    Mode.ofEscape? entry.2 = some entry.1 ∧ entry.2 ≠ 'u' := by
  decide

theorem escape_cases (c : Char) :
    (∃ letter, escape c = ['\\', letter] ∧ Mode.ofEscape? letter = some c ∧ letter ≠ 'u') ∨
      (c.toNat < 32 ∧ escape c =
        ['\\', 'u', '0', '0', hexDigit (c.toNat / 16), hexDigit (c.toNat % 16)]) ∨
      (escape c = [c] ∧ c ≠ '"' ∧ Mode.step? .plain c = some (.plain, some c)) := by
  by_cases known : ∃ letter, (c, letter) ∈ escapes
  · obtain ⟨letter, member⟩ := known
    exact .inl ⟨letter, escape_of_mem _ member⟩
  · have others : ∀ entry ∈ escapes, c ≠ entry.1 :=
      fun entry member same => known ⟨entry.2, same ▸ member⟩
    simp only [escapes, List.forall_mem_cons] at others
    by_cases control : c < ' '
    · exact .inr (.inl ⟨control, by simp [escape, others, control]⟩)
    · exact .inr (.inr ⟨by simp [escape, others, control], others.1,
        by simp [Mode.step?, others, control]⟩)

theorem symbols?_escape (c : Char) (read rest : List Char) :
    symbols? (.inside .plain read) (escape c ++ rest) =
      symbols? (.inside .plain (c :: read)) rest := by
  rcases escape_cases c with ⟨letter, same, stands, short⟩ | ⟨control, same⟩ | ⟨same, quoted, step⟩
  · rw [same]
    exact symbols?_letter stands short
  · rw [same]
    exact symbols?_control control
  · rw [same]
    exact symbols?_inside (fun both => quoted both.2) step

/-- Characters that make symbols of their own, whatever follows them. -/
def Yields (cs : List Char) (symbols : List Symbol) : Prop :=
  ∀ rest, symbols? .outside (cs ++ rest) = (symbols? .outside rest).map (symbols ++ ·)

section

variable {xs ys : List Char} {ss ts : List Symbol}

theorem yields_nil : Yields [] [] := fun _ => Option.map_id'.symm

theorem Yields.append (first : Yields xs ss) (second : Yields ys ts) :
    Yields (xs ++ ys) (ss ++ ts) := by
  intro rest
  rw [List.append_assoc, first, second, Option.map_map]
  congr 1
  funext symbols
  exact (List.append_assoc ss ts symbols).symm

theorem yields_opening : Yields ['['] [.opening] := fun _ => rfl

theorem yields_closing : Yields [']'] [.closing] := fun _ => rfl

theorem yields_comma : Yields [','] [.comma] := fun _ => rfl

theorem yields_newline : Yields ['\n'] [] := fun _ => Option.map_id'.symm

theorem yields_indent (level : Nat) : Yields (indent level) [] := by
  unfold indent
  induction 2 * level with
  | zero => exact yields_nil
  | succ n ih =>
    have space : Yields [' '] [] := fun _ => Option.map_id'.symm
    exact space.append ih

theorem symbols?_quoted (cs read rest : List Char) :
    symbols? (.inside .plain read) (cs.flatMap escape ++ '"' :: rest) =
      (symbols? .outside rest).map (.text (read.reverse ++ cs) :: ·) := by
  induction cs generalizing read with
  | nil =>
    rw [List.append_nil]
    rfl
  | cons c cs ih =>
    rw [List.flatMap_cons, List.append_assoc, symbols?_escape, ih, List.reverse_cons,
      List.append_assoc]
    rfl

theorem yields_quote (cs : List Char) : Yields (quote cs) [.text cs] := by
  intro rest
  have body := symbols?_quoted cs [] rest
  unfold quote
  rw [List.append_assoc]
  exact body

end

def separated : List (List Symbol) → List Symbol
  | [] => []
  | [symbols] => symbols
  | symbols :: rest => symbols ++ .comma :: separated rest

theorem yields_lines (level : Nat) {items : List (List Char)} {symbols : List (List Symbol)}
    (each : List.Forall₂ Yields items symbols) : Yields (lines level items) (separated symbols) := by
  induction each with
  | nil => exact yields_nil
  | @cons item ss items symbols first others ih =>
    have indented := (yields_indent level).append first
    cases others with
    | nil => exact indented
    | cons second others =>
      have whole := (indented.append (yields_comma.append yields_newline)).append ih
      simpa [lines, separated] using whole

theorem yields_block (level : Nat) {items : List (List Char)} {symbols : List (List Symbol)}
    (each : List.Forall₂ Yields items symbols) :
    Yields (block '[' ']' level items) (.opening :: (separated symbols ++ [.closing])) := by
  cases each with
  | nil => exact yields_opening.append yields_closing
  | cons first others =>
    have inside := yields_lines (level + 1) (.cons first others)
    have whole := ((yields_opening.append yields_newline).append inside).append
      ((yields_newline.append (yields_indent level)).append yields_closing)
    simpa [block] using whole

def pairSymbols (pair : String × String) : List Symbol :=
  [.opening, .text pair.1.toList, .comma, .text pair.2.toList, .closing]

theorem yields_writePair (pair : String × String) : Yields (writePair pair) (pairSymbols pair) :=
  yields_block 1 (.cons (yields_quote pair.1.toList) (.cons (yields_quote pair.2.toList) .nil))

theorem pairs?_separated (pair : String × String) (rest : List (String × String)) :
    pairs? (separated ((pair :: rest).map pairSymbols) ++ [.closing]) = some (pair :: rest) := by
  induction rest generalizing pair with
  | nil => simp [separated, pairSymbols, pairs?]
  | cons other rest ih =>
    have whole : separated ((pair :: other :: rest).map pairSymbols) =
        pairSymbols pair ++ .comma :: separated ((other :: rest).map pairSymbols) := rfl
    rw [whole]
    simp only [pairSymbols, List.cons_append, List.nil_append, pairs?]
    rw [ih other]
    simp

theorem exists_opening (pair : String × String) (others : List (List Symbol)) :
    ∃ more, separated (pairSymbols pair :: others) ++ [.closing] = .opening :: more := by
  cases others with
  | nil => exact ⟨_, rfl⟩
  | cons second others => exact ⟨_, rfl⟩

theorem listingOfSymbols?_separated (pairs : List (String × String)) :
    listingOfSymbols? (.opening :: (separated (pairs.map pairSymbols) ++ [.closing])) =
      some pairs := by
  cases pairs with
  | nil => rfl
  | cons pair rest =>
    -- A second opening bracket tells a listing with pairs from an empty one.
    obtain ⟨more, nested⟩ := exists_opening pair (rest.map pairSymbols)
    have inside := pairs?_separated pair rest
    rw [List.map_cons] at inside ⊢
    rw [nested] at inside ⊢
    exact inside

/-- What is written of a listing is read back as the listing. -/
theorem readListing?_listingText (pairs : List (String × String)) :
    readListing? (listingText pairs) = some pairs := by
  have each : List.Forall₂ Yields (pairs.map writePair) (pairs.map pairSymbols) := by
    rw [List.forall₂_map_left_iff, List.forall₂_map_right_iff, List.forall₂_same]
    exact fun pair _ => yields_writePair pair
  have symbols := yields_block 0 each []
  rw [List.append_nil] at symbols
  unfold readListing? listingText writeListing
  rw [String.toList_ofList, symbols]
  change listingOfSymbols? (.opening :: (separated (pairs.map pairSymbols) ++ [.closing]) ++ []) = _
  rw [List.append_nil, listingOfSymbols?_separated]

end Worksheet.Json
