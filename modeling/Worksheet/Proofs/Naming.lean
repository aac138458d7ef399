import Mathlib.Tactic
import Worksheet.Reference

/-! Names of cells. A name is read back as the cell that it was written for, unless the cell lies in
the last column or row, whose ordinal no name can carry; and no two cells have the same name. -/

namespace Worksheet.Address

theorem holds_below {p : Char → Prop} {bound : Nat} (table : ∀ n : Fin bound, p (Char.ofNat n.val))
    {c : Char} (small : c.toNat < bound) : p c := by
  have found := table ⟨c.toNat, small⟩
  rw [Char.ofNat_toNat] at found
  exact found

theorem letter_properties (value : Nat) (small : value < 26) :
    (letter value).isAlpha = true ∧ letterValue (letter value) = value + 1 ∧
      (letter value).toLower = letter value := by
  have table : ∀ v : Fin 26, (letter v.val).isAlpha = true ∧
      letterValue (letter v.val) = v.val + 1 ∧ (letter v.val).toLower = letter v.val := by
    decide
  exact table ⟨value, small⟩

theorem letters_zero : letters 0 = [] := by
  rw [letters, if_pos rfl]

theorem letters_succ (n : Nat) : letters (n + 1) = letters (n / 26) ++ [letter (n % 26)] := by
  rw [letters, if_neg (Nat.succ_ne_zero n), Nat.add_sub_cancel]

theorem letters_ne_nil (n : Nat) (positive : 0 < n) : letters n ≠ [] := by
  obtain ⟨m, rfl⟩ : ∃ m, n = m + 1 := ⟨n - 1, by omega⟩
  rw [letters_succ]
  exact List.append_ne_nil_of_right_ne_nil _ (List.cons_ne_nil _ _)

theorem isAlpha_of_mem_letters (n : Nat) (c : Char) (member : c ∈ letters n) :
    c.isAlpha = true := by
  induction n using Nat.strong_induction_on with
  | _ n ih =>
    cases n with
    | zero =>
      rw [letters_zero] at member
      exact absurd member List.not_mem_nil
    | succ m =>
      rw [letters_succ, List.mem_append, List.mem_singleton] at member
      rcases member with front | last
      · exact ih (m / 26) (by omega) front
      · rw [last]
        exact (letter_properties (m % 26) (Nat.mod_lt m (by decide))).1

theorem lettersValue_append (cs : List Char) (c : Char) :
    lettersValue (cs ++ [c]) = 26 * lettersValue cs + letterValue c := by
  unfold lettersValue
  rw [List.foldl_append]
  rfl

theorem lettersValue_letters (n : Nat) : lettersValue (letters n) = n := by
  induction n using Nat.strong_induction_on with
  | _ n ih =>
    cases n with
    | zero =>
      rw [letters_zero]
      rfl
    | succ m =>
      have last := (letter_properties (m % 26) (Nat.mod_lt m (by decide))).2.1
      rw [letters_succ, lettersValue_append, ih (m / 26) (by omega), last]
      omega

theorem isDigit_iff (c : Char) : c.isDigit = true ↔ 48 ≤ c.toNat ∧ c.toNat ≤ 57 := by
  unfold Char.isDigit
  rw [Bool.and_eq_true, decide_eq_true_iff, decide_eq_true_iff]
  rfl

theorem isAlpha_iff (c : Char) : c.isAlpha = true ↔
    (65 ≤ c.toNat ∧ c.toNat ≤ 90) ∨ (97 ≤ c.toNat ∧ c.toNat ≤ 122) := by
  unfold Char.isAlpha Char.isUpper Char.isLower
  simp only [Bool.or_eq_true, Bool.and_eq_true, decide_eq_true_iff]
  rfl

theorem not_isAlpha_of_isDigit {c : Char} (digit : c.isDigit = true) : c.isAlpha = false := by
  rw [isDigit_iff] at digit
  rw [Bool.eq_false_iff, Ne, isAlpha_iff]
  omega

theorem isDigit_of_mem_toDigits {n : Nat} {c : Char} (member : c ∈ Nat.toDigits 10 n) :
    c.isDigit = true :=
  Nat.isDigit_of_mem_toDigits (by decide) (by decide) member

section

variable {ls ds : List Char}

theorem takeWhile_letters (alpha : ∀ c ∈ ls, c.isAlpha = true) (digits : ∀ c ∈ ds, c.isAlpha = false) :
    (ls ++ ds).takeWhile Char.isAlpha = ls := by
  rw [List.takeWhile_append_of_pos alpha]
  cases ds with
  | nil => simp
  | cons d rest =>
    have stop : ¬ d.isAlpha = true := by
      rw [digits d List.mem_cons_self]
      exact Bool.false_ne_true
    rw [List.takeWhile_cons_of_neg stop, List.append_nil]

theorem dropWhile_letters (alpha : ∀ c ∈ ls, c.isAlpha = true) (digits : ∀ c ∈ ds, c.isAlpha = false) :
    (ls ++ ds).dropWhile Char.isAlpha = ds := by
  have whole := List.takeWhile_append_dropWhile (p := Char.isAlpha) (l := ls ++ ds)
  rw [takeWhile_letters alpha digits] at whole
  exact List.append_cancel_left whole

end

theorem toDigits_not_isAlpha (n : Nat) : ∀ c ∈ Nat.toDigits 10 n, c.isAlpha = false :=
  fun _ member => not_isAlpha_of_isDigit (isDigit_of_mem_toDigits member)

theorem letters_injective : Function.Injective letters := by
  intro m n same
  rw [← lettersValue_letters m, same, lettersValue_letters]

theorem toDigits_injective : Function.Injective (Nat.toDigits 10) := by
  intro m n same
  rw [← Nat.ofDigitChars_ten_toDigits (n := m), same, Nat.ofDigitChars_ten_toDigits]

theorem ordinal_injective : Function.Injective Index.ordinal := by
  intro i j same
  unfold Index.ordinal at same
  exact Fin.ext (by omega)

theorem name_injective : Function.Injective name := by
  intro a b same
  have chars : a.nameChars = b.nameChars := String.ofList_injective same
  unfold nameChars at chars
  have cols := congrArg (List.takeWhile Char.isAlpha) chars
  rw [takeWhile_letters (isAlpha_of_mem_letters _) (toDigits_not_isAlpha _),
    takeWhile_letters (isAlpha_of_mem_letters _) (toDigits_not_isAlpha _)] at cols
  rw [cols] at chars
  have rows := List.append_cancel_left chars
  cases a
  cases b
  congr 1
  · exact ordinal_injective (letters_injective cols)
  · exact ordinal_injective (toDigits_injective rows)

/-- The last column and the last row have no ordinal that a name could carry. -/
def Nameable (a : Address) : Prop := a.col.val < 4294967295 ∧ a.row.val < 4294967295

theorem ofOrdinal?_ordinal {index : Index} (small : index.val < 4294967295) :
    Index.ofOrdinal? index.ordinal = some index := by
  unfold Index.ofOrdinal? Index.ordinal
  rw [dif_pos ⟨by omega, by omega⟩]
  rfl

/-- What may stand before the letters and before the digits of a name. -/
def IsMarker (cs : List Char) : Prop := cs = [] ∨ cs = ['$']

theorem dropMarker_append {marker cs : List Char} (fine : IsMarker marker)
    (unmarked : cs.head? ≠ some '$') : dropMarker (marker ++ cs) = cs := by
  rcases fine with rfl | rfl
  · rw [List.nil_append]
    unfold dropMarker
    split
    next rest => exact absurd rfl unmarked
    next => rfl
  · rfl

section

variable {first ls second ds : List Char}

theorem head?_ne_of_letters (nonempty : ls ≠ []) (alpha : ∀ c ∈ ls, c.isAlpha = true) (rest : List Char) :
    (ls ++ rest).head? ≠ some '$' := by
  obtain ⟨c, cs, rfl⟩ := List.exists_cons_of_ne_nil nonempty
  rw [List.cons_append, List.head?_cons, Ne, Option.some.injEq]
  rintro rfl
  exact absurd (alpha '$' List.mem_cons_self) (by decide)

theorem not_isAlpha_behind_letters (secondFine : IsMarker second) (digits : ∀ c ∈ ds, c.isDigit = true) :
    ∀ c ∈ second ++ ds, c.isAlpha = false := by
  intro c member
  rcases List.mem_append.1 member with marker | digit
  · rcases secondFine with rfl | rfl
    · exact absurd marker List.not_mem_nil
    · rw [List.mem_singleton.1 marker]
      decide
  · exact not_isAlpha_of_isDigit (digits c digit)

theorem ofChars?_parts (firstFine : IsMarker first) (nonempty : ls ≠ [])
    (alpha : ∀ c ∈ ls, c.isAlpha = true) (secondFine : IsMarker second)
    (digits : ∀ c ∈ ds, c.isDigit = true) :
    ofChars? (first ++ (ls ++ (second ++ ds))) =
      (Index.ofOrdinal? (lettersValue ls)).bind fun col =>
        (Index.ofOrdinal? (Nat.ofDigitChars 10 ds 0)).map fun row => ⟨col, row⟩ := by
  have behind := not_isAlpha_behind_letters secondFine digits
  have unmarked : ds.head? ≠ some '$' :=
    fun marked => absurd (digits '$' (List.mem_of_mem_head? marked)) (by decide)
  unfold ofChars?
  simp only [dropMarker_append firstFine (head?_ne_of_letters nonempty alpha _)]
  rw [takeWhile_letters alpha behind, dropWhile_letters alpha behind,
    dropMarker_append secondFine unmarked]
  unfold ofLetters? ofDigits?
  rw [if_pos (List.all_eq_true.2 digits)]
  cases Index.ofOrdinal? (Nat.ofDigitChars 10 ds 0) with
  | none => rfl
  | some row => rfl

theorem ofChars?_numerals (firstFine : IsMarker first) (secondFine : IsMarker second) (m n : Nat) :
    ofChars? (first ++ (letters (m + 1) ++ (second ++ Nat.toDigits 10 n))) =
      (Index.ofOrdinal? (m + 1)).bind fun col => (Index.ofOrdinal? n).map fun row => ⟨col, row⟩ := by
  rw [ofChars?_parts firstFine (letters_ne_nil _ (Nat.succ_pos m)) (isAlpha_of_mem_letters _) secondFine
    (fun _ member => isDigit_of_mem_toDigits member), lettersValue_letters,
    Nat.ofDigitChars_ten_toDigits]

end

/-- A name is read back as its cell, with or without dollar signs. -/
theorem ofChars?_marked {first second : List Char} (firstFine : IsMarker first)
    (secondFine : IsMarker second) {a : Address} (nameable : a.Nameable) :
    ofChars? (first ++ (letters a.col.ordinal ++ (second ++ Nat.toDigits 10 a.row.ordinal))) =
      some a := by
  have read := ofChars?_numerals firstFine secondFine a.col.val a.row.ordinal
  change ofChars? _ = (Index.ofOrdinal? a.col.ordinal).bind _ at read
  rw [ofOrdinal?_ordinal nameable.1, ofOrdinal?_ordinal nameable.2] at read
  exact read

theorem ofName?_name {a : Address} (nameable : a.Nameable) : ofName? a.name = some a := by
  unfold ofName? name nameChars
  rw [String.toList_ofList]
  exact ofChars?_marked (.inl rfl) (.inl rfl) nameable

end Worksheet.Address
