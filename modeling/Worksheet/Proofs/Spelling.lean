import Mathlib.Data.Nat.Digits.Defs
import Worksheet.Proofs.Guarded.Reading
import Worksheet.Proofs.Lexing
import Worksheet.Proofs.Reading
import Worksheet.Sheet

/-! The spelling of names. A text names a cell if it is made of letters and digits, with a dollar sign before
either of them or not, and if the numerals that they are stand for ordinals. The numeral of a column has no
digit zero, so names of one cell can differ only in the dollar signs, the case of the letters and the zeros
in front of the digits. The canonical name is the one among them that says the cell back. -/

namespace Worksheet

theorem Index.ofOrdinal?_eq_some_iff {n : Nat} {index : Index} :
    Index.ofOrdinal? n = some index ↔ n ≤ 4294967295 ∧ index.ordinal = n := by
  constructor
  · intro found
    obtain ⟨small, same⟩ := Index.lt_of_ofOrdinal? found
    refine ⟨?_, same⟩
    unfold Index.ordinal at same
    omega
  · rintro ⟨small, rfl⟩
    unfold Index.ordinal at small
    exact Address.ofOrdinal?_ordinal (by omega)

namespace Address

open Lexeme

def placeValue (base : Nat) (value : Char → Nat) (cs : List Char) : Nat :=
  Nat.ofDigits base (cs.reverse.map value)

def alphabet : List Char :=
  ['a', 'b', 'c', 'd', 'e', 'f', 'g', 'h', 'i', 'j', 'k', 'l', 'm', 'n', 'o', 'p', 'q', 'r', 's', 't', 'u',
    'v', 'w', 'x', 'y', 'z']

def letterRank (c : Char) : Nat := alphabet.idxOf c.toLower + 1

def digitRank (c : Char) : Nat := ['0', '1', '2', '3', '4', '5', '6', '7', '8', '9'].idxOf c

def Parts (cs ls ds : List Char) : Prop :=
  ∃ first second, NameParts first ls second ds ∧ cs = first ++ (ls ++ (second ++ ds))

def Spells (cs : List Char) (m n : Nat) : Prop :=
  ∃ ls ds, Parts cs ls ds ∧ placeValue 26 letterRank ls = m ∧ placeValue 10 digitRank ds = n

/-- Two names that differ in nothing but dollar signs, the case of letters, and zeros in front of the
digits. -/
def Alike (cs cs' : List Char) : Prop :=
  ∃ ls ds ls' ds', Parts cs ls ds ∧ Parts cs' ls' ds' ∧
    ls.map Char.toLower = ls'.map Char.toLower ∧
    ds.dropWhile (fun c => c = '0') = ds'.dropWhile fun c => c = '0'

/-! Numerals and their values. -/

section

variable {c : Char}

theorem letterValue_eq (alpha : c.isAlpha = true) :
    letterValue c = letterRank c ∧ ∃ v < 26, letterValue c = v + 1 ∧ letter v = c.toLower := by
  have table : ∀ n : Fin 123, (Char.ofNat n.val).isAlpha = true →
      letterValue (Char.ofNat n.val) = letterRank (Char.ofNat n.val) ∧
        ∃ v < 26, letterValue (Char.ofNat n.val) = v + 1 ∧ letter v = (Char.ofNat n.val).toLower := by
    decide
  have small : c.toNat < 123 := by
    have := (isAlpha_iff c).1 alpha
    omega
  exact holds_below (p := fun c => c.isAlpha = true → letterValue c = letterRank c ∧
    ∃ v < 26, letterValue c = v + 1 ∧ letter v = c.toLower) table small alpha

theorem digitValue_eq (digit : c.isDigit = true) :
    c.toNat - '0'.toNat = digitRank c ∧ Nat.toDigits 10 (c.toNat - '0'.toNat) = [c] ∧
      c.toNat - '0'.toNat < 10 := by
  have table : ∀ n : Fin 58, (Char.ofNat n.val).isDigit = true →
      (Char.ofNat n.val).toNat - '0'.toNat = digitRank (Char.ofNat n.val) ∧
        Nat.toDigits 10 ((Char.ofNat n.val).toNat - '0'.toNat) = [Char.ofNat n.val] ∧
        (Char.ofNat n.val).toNat - '0'.toNat < 10 := by
    decide
  have small : c.toNat < 58 := by
    have := (isDigit_iff c).1 digit
    omega
  exact holds_below (p := fun c => c.isDigit = true → c.toNat - '0'.toNat = digitRank c ∧
    Nat.toDigits 10 (c.toNat - '0'.toNat) = [c] ∧ c.toNat - '0'.toNat < 10) table small digit

theorem placeValue_append (base : Nat) (value : Char → Nat) (cs : List Char) (c : Char) :
    placeValue base value (cs ++ [c]) = base * placeValue base value cs + value c := by
  unfold placeValue
  rw [List.reverse_append, List.reverse_singleton, List.singleton_append, List.map_cons,
    Nat.ofDigits_cons, Nat.add_comm]

end

section

variable {ls ds : List Char}

theorem lettersValue_eq_placeValue (alpha : ∀ c ∈ ls, c.isAlpha = true) :
    lettersValue ls = placeValue 26 letterRank ls := by
  induction ls using List.reverseRecOn with
  | nil => rfl
  | append_singleton front c ih =>
    obtain ⟨earlier, last⟩ := List.forall_mem_append.1 alpha
    rw [lettersValue_append, placeValue_append, ih earlier, (letterValue_eq (last c List.mem_cons_self)).1]

theorem ofDigitChars_eq_placeValue (digits : ∀ c ∈ ds, c.isDigit = true) :
    Nat.ofDigitChars 10 ds 0 = placeValue 10 digitRank ds := by
  induction ds using List.reverseRecOn with
  | nil => rfl
  | append_singleton front c ih =>
    obtain ⟨earlier, last⟩ := List.forall_mem_append.1 digits
    rw [Nat.ofDigitChars_append, placeValue_append, ← ih earlier,
      ← (digitValue_eq (last c List.mem_cons_self)).1]
    rfl

theorem letters_lettersValue (alpha : ∀ c ∈ ls, c.isAlpha = true) :
    letters (lettersValue ls) = ls.map Char.toLower := by
  induction ls using List.reverseRecOn with
  | nil => exact letters_zero
  | append_singleton front c ih =>
    obtain ⟨earlier, last⟩ := List.forall_mem_append.1 alpha
    obtain ⟨_, v, small, value, lower⟩ := letterValue_eq (last c List.mem_cons_self)
    have quotient : (26 * lettersValue front + v) / 26 = lettersValue front := by omega
    have remainder : (26 * lettersValue front + v) % 26 = v := by omega
    calc letters (lettersValue (front ++ [c]))
        = letters (26 * lettersValue front + v + 1) := by rw [lettersValue_append, value, Nat.add_assoc]
      _ = letters (lettersValue front) ++ [letter v] := by rw [letters_succ, quotient, remainder]
      _ = (front ++ [c]).map Char.toLower := by rw [ih earlier, lower, List.map_append, List.map_singleton]

theorem toDigits_ofDigitChars_append (digits : ∀ c ∈ ds, c.isDigit = true) {n : Nat} (positive : 0 < n) :
    Nat.toDigits 10 (Nat.ofDigitChars 10 ds n) = Nat.toDigits 10 n ++ ds := by
  induction ds generalizing n with
  | nil => rw [Nat.ofDigitChars_nil, List.append_nil]
  | cons c ds ih =>
    obtain ⟨first, others⟩ := List.forall_mem_cons.1 digits
    obtain ⟨_, numeral, small⟩ := digitValue_eq first
    calc Nat.toDigits 10 (Nat.ofDigitChars 10 (c :: ds) n)
        = Nat.toDigits 10 (10 * n + (c.toNat - '0'.toNat)) ++ ds := by
          rw [Nat.ofDigitChars_cons, ih others (by omega)]
      _ = Nat.toDigits 10 n ++ [c] ++ ds := by
          rw [← Nat.toDigits_append_toDigits (by decide) positive small, numeral]
      _ = Nat.toDigits 10 n ++ c :: ds := by rw [List.append_assoc, List.singleton_append]

theorem toDigits_ofDigitChars (digits : ∀ c ∈ ds, c.isDigit = true)
    (positive : 0 < Nat.ofDigitChars 10 ds 0) :
    Nat.toDigits 10 (Nat.ofDigitChars 10 ds 0) = ds.dropWhile fun c => c = '0' := by
  induction ds with
  | nil => exact absurd positive (lt_irrefl 0)
  | cons c ds ih =>
    obtain ⟨first, others⟩ := List.forall_mem_cons.1 digits
    -- Zeros in front leave the value at zero; the first other digit begins the numeral.
    by_cases zero : c = '0'
    · subst zero
      rw [List.dropWhile_cons_of_pos (by decide)]
      exact ih others positive
    · obtain ⟨_, numeral, _⟩ := digitValue_eq first
      have nonzero : 0 < 10 * 0 + (c.toNat - '0'.toNat) := by
        rcases Nat.eq_zero_or_pos (c.toNat - '0'.toNat) with none | some
        · rw [none] at numeral
          exact absurd (List.singleton_inj.1 numeral).symm zero
        · omega
      calc Nat.toDigits 10 (Nat.ofDigitChars 10 (c :: ds) 0)
          = Nat.toDigits 10 (10 * 0 + (c.toNat - '0'.toNat)) ++ ds := by
            rw [Nat.ofDigitChars_cons, toDigits_ofDigitChars_append others nonzero]
        _ = c :: ds := by rw [Nat.mul_zero, Nat.zero_add, numeral, List.singleton_append]
        _ = (c :: ds).dropWhile fun c => c = '0' :=
            (List.dropWhile_cons_of_neg (by simpa using zero)).symm

end

/-! Names and their parts. -/

theorem exists_marker (cs : List Char) : ∃ marker, IsMarker marker ∧ cs = marker ++ dropMarker cs := by
  unfold dropMarker
  split
  next rest => exact ⟨['$'], .inr rfl, rfl⟩
  next => exact ⟨[], .inl rfl, rfl⟩

section

variable {cs cs' ls ds ls' ds' : List Char} {a b : Address}

theorem exists_nameParts (named : ofChars? cs = some a) :
    ∃ first ls second ds, NameParts first ls second ds ∧ cs = first ++ (ls ++ (second ++ ds)) := by
  unfold ofChars? at named
  obtain ⟨col, colFound, named⟩ := Option.bind_eq_some_iff.1 named
  obtain ⟨row, rowFound, _⟩ := Option.bind_eq_some_iff.1 named
  obtain ⟨first, firstFine, split⟩ := exists_marker cs
  obtain ⟨second, secondFine, split'⟩ := exists_marker ((dropMarker cs).dropWhile Char.isAlpha)
  generalize digits : dropMarker ((dropMarker cs).dropWhile Char.isAlpha) = ds at rowFound split'
  have alpha : ∀ c ∈ (dropMarker cs).takeWhile Char.isAlpha, c.isAlpha = true :=
    fun c member => List.mem_takeWhile_imp member
  have whole : cs = first ++ ((dropMarker cs).takeWhile Char.isAlpha ++ (second ++ ds)) := by
    rw [← split', List.takeWhile_append_dropWhile]
    exact split
  generalize letters : (dropMarker cs).takeWhile Char.isAlpha = ls at colFound alpha whole
  refine ⟨first, ls, second, ds, ⟨firstFine, ⟨?_, alpha⟩, secondFine, ?_⟩, whole⟩
  · rintro rfl
    cases colFound
  · unfold ofDigits? at rowFound
    split at rowFound
    next all =>
      refine ⟨?_, List.all_eq_true.1 all⟩
      rintro rfl
      cases rowFound
    next => cases rowFound

theorem exists_parts (named : ofChars? cs = some a) : ∃ ls ds, Parts cs ls ds := by
  obtain ⟨first, ls, second, ds, fine, whole⟩ := exists_nameParts named
  exact ⟨ls, ds, first, second, fine, whole⟩

theorem ofChars?_eq_some_iff_of_parts (parts : Parts cs ls ds) :
    ofChars? cs = some a ↔ lettersValue ls ≤ 4294967295 ∧ Nat.ofDigitChars 10 ds 0 ≤ 4294967295 ∧
      a.col.ordinal = lettersValue ls ∧ a.row.ordinal = Nat.ofDigitChars 10 ds 0 := by
  obtain ⟨first, second, ⟨firstFine, ⟨nonempty, alpha⟩, secondFine, _, digits⟩, rfl⟩ := parts
  rw [ofChars?_parts firstFine nonempty alpha secondFine digits]
  simp only [Option.bind_eq_some_iff, Option.map_eq_some_iff, Index.ofOrdinal?_eq_some_iff]
  constructor
  · rintro ⟨col, ⟨colSmall, colSame⟩, row, ⟨rowSmall, rowSame⟩, rfl⟩
    exact ⟨colSmall, rowSmall, colSame, rowSame⟩
  · rintro ⟨colSmall, rowSmall, colSame, rowSame⟩
    exact ⟨a.col, ⟨colSmall, colSame⟩, a.row, ⟨rowSmall, rowSame⟩, rfl⟩

theorem ofChars?_eq_some_iff :
    ofChars? cs = some a ↔ ∃ m n, Spells cs m n ∧ m ≤ 4294967295 ∧ n ≤ 4294967295 ∧
      a.col.ordinal = m ∧ a.row.ordinal = n := by
  have values : ∀ {ls ds}, Parts cs ls ds → lettersValue ls = placeValue 26 letterRank ls ∧
      Nat.ofDigitChars 10 ds 0 = placeValue 10 digitRank ds := by
    rintro ls ds ⟨_, _, fine, _⟩
    exact ⟨lettersValue_eq_placeValue fine.letters.2, ofDigitChars_eq_placeValue fine.digits.2⟩
  constructor
  · intro named
    obtain ⟨ls, ds, parts⟩ := exists_parts named
    rw [ofChars?_eq_some_iff_of_parts parts, (values parts).1, (values parts).2] at named
    exact ⟨_, _, ⟨ls, ds, parts, rfl, rfl⟩, named⟩
  · rintro ⟨m, n, ⟨ls, ds, parts, rfl, rfl⟩, fits⟩
    rw [ofChars?_eq_some_iff_of_parts parts, (values parts).1, (values parts).2]
    exact fits

theorem lettersValue_pos (parts : Parts cs ls ds) : 0 < lettersValue ls := by
  obtain ⟨_, _, fine, _⟩ := parts
  refine Nat.pos_of_ne_zero fun zero => fine.letters.1 ?_
  have numeral := letters_lettersValue fine.letters.2
  rw [zero, letters_zero] at numeral
  exact List.map_eq_nil_iff.1 numeral.symm

/-- The canonical name of a cell has the letters of any name of it in lower case, and its digits without the
zeros in front. -/
theorem numerals_of_ofChars? (parts : Parts cs ls ds) (named : ofChars? cs = some a) :
    letters a.col.ordinal = ls.map Char.toLower ∧
      Nat.toDigits 10 a.row.ordinal = ds.dropWhile fun c => c = '0' := by
  obtain ⟨_, _, col, row⟩ := (ofChars?_eq_some_iff_of_parts parts).1 named
  obtain ⟨_, _, fine, _⟩ := parts
  have positive : 0 < Nat.ofDigitChars 10 ds 0 := row ▸ Nat.succ_pos _
  rw [col, row]
  exact ⟨letters_lettersValue fine.letters.2, toDigits_ofDigitChars fine.digits.2 positive⟩

theorem eq_iff_alike (named : ofChars? cs = some a) (named' : ofChars? cs' = some b) :
    a = b ↔ Alike cs cs' := by
  constructor
  · rintro rfl
    obtain ⟨ls, ds, parts⟩ := exists_parts named
    obtain ⟨ls', ds', parts'⟩ := exists_parts named'
    obtain ⟨col, row⟩ := numerals_of_ofChars? parts named
    obtain ⟨col', row'⟩ := numerals_of_ofChars? parts' named'
    exact ⟨ls, ds, ls', ds', parts, parts', col.symm.trans col', row.symm.trans row'⟩
  · rintro ⟨ls, ds, ls', ds', parts, parts', letters, digits⟩
    obtain ⟨col, row⟩ := numerals_of_ofChars? parts named
    obtain ⟨col', row'⟩ := numerals_of_ofChars? parts' named'
    have cols : a.col = b.col := ordinal_injective (letters_injective (col.trans (letters.trans col'.symm)))
    have rows : a.row = b.row := ordinal_injective (toDigits_injective (row.trans (digits.trans row'.symm)))
    cases a
    cases b
    exact congrArg₂ Address.mk cols rows

end

def Denotes (text : String) (m n : Nat) : Prop :=
  Spells text.toList m n ∧ m ≤ 4294967295 ∧ 1 ≤ n ∧ n ≤ 4294967295

theorem ofName?_eq_some_iff {text : String} {a : Address} :
    ofName? text = some a ↔ ∃ m n, Denotes text m n ∧ a.col.val = m - 1 ∧ a.row.val = n - 1 := by
  unfold ofName?
  rw [ofChars?_eq_some_iff]
  constructor
  · rintro ⟨m, n, spells, colSmall, rowSmall, rfl, rfl⟩
    exact ⟨_, _, ⟨spells, colSmall, Nat.succ_pos _, rowSmall⟩, rfl, rfl⟩
  · rintro ⟨m, n, ⟨spells, colSmall, positive, rowSmall⟩, col, row⟩
    have positive' : 0 < m := by
      obtain ⟨ls, ds, parts, rfl, _⟩ := spells
      have value := lettersValue_pos parts
      obtain ⟨_, _, fine, _⟩ := parts
      rw [← lettersValue_eq_placeValue fine.letters.2]
      exact value
    unfold Index.ordinal
    exact ⟨m, n, spells, colSmall, rowSmall, by omega, by omega⟩

theorem exists_ofName?_of_denotes {text : String} {m n : Nat} (denotes : Denotes text m n) :
    ∃ a, ofName? text = some a := by
  have colSmall := denotes.2.1
  have rowSmall := denotes.2.2.2
  exact ⟨⟨⟨m - 1, by omega⟩, ⟨n - 1, by omega⟩⟩, ofName?_eq_some_iff.2 ⟨m, n, denotes, rfl, rfl⟩⟩

/-- A text names the cell whose column and row it spells, and any other text is refused as it stands. No step
of the reading leaves its 32 bits. Two names have one canonical form if and only if they are alike. -/
theorem named_by_grammar :
    (∀ text a, ofName? text = some a ↔
      ∃ m n, Denotes text m n ∧ a.col.val = m - 1 ∧ a.row.val = n - 1) ∧
    (∀ text, (∃ a, ofName? text = some a) ↔ ∃ m n, Denotes text m n) ∧
    (∀ text, (¬ ∃ m n, Denotes text m n) →
      ∀ draft, (Sheet.named text).run draft = .error (.badName text) draft) ∧
    (∀ text, Guarded.address text.toList = .ok (ofName? text)) ∧
    ∀ s t a b, ofName? s = some a → ofName? t = some b →
      (canonicalName? s = canonicalName? t ↔ Alike s.toList t.toList) := by
  have named : ∀ text, (∃ a, ofName? text = some a) ↔ ∃ m n, Denotes text m n := by
    intro text
    constructor
    · rintro ⟨a, found⟩
      obtain ⟨m, n, denotes, _⟩ := ofName?_eq_some_iff.1 found
      exact ⟨m, n, denotes⟩
    · rintro ⟨m, n, denotes⟩
      exact exists_ofName?_of_denotes denotes
  refine ⟨fun text a => ofName?_eq_some_iff, named, fun text refused draft => ?_,
    fun text => Guarded.address_eq text.toList, fun s t a b found found' => ?_⟩
  · have none : ofName? text = none := by
      rw [← named text, ← Option.isSome_iff_exists] at refused
      simpa using refused
    unfold Sheet.named
    rw [none]
    rfl
  · unfold canonicalName?
    rw [found, found', Option.map_some, Option.map_some, Option.some.injEq, name_injective.eq_iff]
    exact eq_iff_alike found found'

theorem named_by_grammar_two_spellings :
    ofName? "$aB007" = some ⟨27, 6⟩ ∧ ofName? "Ab$7" = some ⟨27, 6⟩ ∧
      canonicalName? "$aB007" = canonicalName? "Ab$7" := by
  have first : ofName? "$aB007" = some ⟨27, 6⟩ := by decide +kernel
  have second : ofName? "Ab$7" = some ⟨27, 6⟩ := by decide +kernel
  refine ⟨first, second, (named_by_grammar.2.2.2.2 _ _ _ _ first second).2
    ⟨['a', 'B'], ['0', '0', '7'], ['A', 'b'], ['7'], ⟨['$'], [], ?_, rfl⟩, ⟨[], ['$'], ?_, rfl⟩, rfl, rfl⟩⟩
  · exact ⟨.inr rfl, ⟨List.cons_ne_nil _ _, List.all_eq_true.1 rfl⟩, .inl rfl,
      ⟨List.cons_ne_nil _ _, List.all_eq_true.1 rfl⟩⟩
  · exact ⟨.inl rfl, ⟨List.cons_ne_nil _ _, List.all_eq_true.1 rfl⟩, .inr rfl,
      ⟨List.cons_ne_nil _ _, List.all_eq_true.1 rfl⟩⟩

/-! Canonical names. -/

section

variable {a : Address} {text canonical : String} {ls : List Char}

theorem letters_of_ofLetters? {index : Index} (alpha : ∀ c ∈ ls, c.isAlpha = true)
    (found : ofLetters? ls = some index) : letters index.ordinal = ls.map Char.toLower := by
  unfold ofLetters? at found
  rw [(Index.ofOrdinal?_eq_some_iff.1 found).2]
  exact letters_lettersValue alpha

theorem ofName?_name_eq_some_iff :
    ofName? a.name = some a ↔ a.col.val ≤ 4294967294 ∧ a.row.val ≤ 4294967294 := by
  constructor
  · intro found
    have nameable := nameable_of_ofName? found
    unfold Nameable at nameable
    omega
  · intro inside
    apply ofName?_name
    unfold Nameable
    omega

theorem canonicalName?_eq_some_iff :
    canonicalName? text = some canonical ↔ ∃ a, ofName? text = some a ∧ a.name = canonical :=
  Option.map_eq_some_iff

theorem canonicalName?_of_canonical (found : canonicalName? text = some canonical) :
    canonicalName? canonical = some canonical := by
  obtain ⟨a, named, rfl⟩ := canonicalName?_eq_some_iff.1 found
  exact canonicalName?_eq_some_iff.2 ⟨a, ofName?_name (nameable_of_ofName? named), rfl⟩

end

/-- Every cell outside of the last column and the last row is read back from its name, and no two cells of the
whole sheet share one. The numeral of a column that letters stand for is the letters, in lower case. A canonical
name is its own canonical form, and the texts that are so are the names of those cells, one for each. -/
theorem names_one_to_one :
    (∀ a : Address, ofName? a.name = some a ↔ a.col.val ≤ 4294967294 ∧ a.row.val ≤ 4294967294) ∧
    Function.Injective name ∧
    (∀ ls : List Char, (∀ c ∈ ls, c.isAlpha = true) → ∀ index, ofLetters? ls = some index →
      letters index.ordinal = ls.map Char.toLower) ∧
    (∀ text canonical, canonicalName? text = some canonical →
      canonicalName? canonical = some canonical) ∧
    Set.BijOn name {a | a.col.val ≤ 4294967294 ∧ a.row.val ≤ 4294967294}
      {canonical | canonicalName? canonical = some canonical} := by
  refine ⟨fun a => ofName?_name_eq_some_iff, name_injective,
    fun ls alpha index found => letters_of_ofLetters? alpha found,
    fun text canonical found => canonicalName?_of_canonical found, ?_, name_injective.injOn, ?_⟩
  · intro a inside
    exact canonicalName?_eq_some_iff.2 ⟨a, ofName?_name_eq_some_iff.2 inside, rfl⟩
  · intro canonical fixed
    obtain ⟨a, found, same⟩ := canonicalName?_eq_some_iff.1 fixed
    subst same
    exact ⟨a, ofName?_name_eq_some_iff.1 found, rfl⟩

theorem names_one_to_one_last_name :
    ofName? (name ⟨4294967294, 4294967294⟩) = some ⟨4294967294, 4294967294⟩ ∧
      ofLetters? "mWLqkwU".toList = some 4294967294 ∧ letters 4294967295 = "mwlqkwu".toList ∧
      canonicalName? "$mWLqkwU$04294967295" = some "mwlqkwu4294967295" ∧
      canonicalName? "mwlqkwu4294967295" = some "mwlqkwu4294967295" := by
  obtain ⟨read, _, numeral, stays, _⟩ := names_one_to_one
  have column : ofLetters? "mWLqkwU".toList = some 4294967294 := by decide +kernel
  have canonical : canonicalName? "$mWLqkwU$04294967295" = some "mwlqkwu4294967295" := by decide +kernel
  have alpha : ∀ c ∈ "mWLqkwU".toList, c.isAlpha = true := List.all_eq_true.1 rfl
  exact ⟨(read _).2 (by decide), column, numeral _ alpha _ column, canonical, stays _ _ canonical⟩

end Address

end Worksheet
