import Worksheet.Proofs.Naming

/-! Texts of references. What a reference is written as in a cell is read back there as the reference,
provided that it leads to a cell with a name. -/

namespace Worksheet

theorem Index.ofInt?_eq_some_iff {i : Int} {index : Index} :
    Index.ofInt? i = some index ↔ i = index.val := by
  unfold Index.ofInt?
  constructor
  · intro found
    split at found
    next bound =>
      cases found
      exact (Int.toNat_of_nonneg bound.1).symm
    next => cases found
  · intro same
    subst same
    have bound : (0 : Int) ≤ (index.val : Int) ∧ (index.val : Int) < 4294967296 := by
      have := index.isLt
      omega
    rw [dif_pos bound]
    rfl

namespace Coord

theorem marker_isMarker (c : Coord) : Address.IsMarker c.marker := by
  cases c with
  | absolute index => exact .inr rfl
  | relative offset => exact .inl rfl

theorem of_resolved {c : Coord} {base index : Index} (denotes : c.resolve? base = some index) :
    Coord.of (decide (c.marker = ['$'])) index base = c := by
  cases c with
  | absolute i =>
    have same := Index.ofInt?_eq_some_iff.1 denotes
    subst same
    rfl
  | relative offset =>
    have same := Index.ofInt?_eq_some_iff.1 denotes
    change Coord.relative (index.val - base.val) = .relative offset
    rw [← same, add_sub_cancel_left]

theorem resolve?_of (fixed : Bool) (index base : Index) :
    (Coord.of fixed index base).resolve? base = some index := by
  cases fixed with
  | true => exact Index.ofInt?_eq_some_iff.2 rfl
  | false =>
    change Index.ofInt? ((base.val : Int) + ((index.val : Int) - base.val)) = some index
    rw [Index.ofInt?_eq_some_iff, add_sub_cancel]

end Coord

namespace Reference

variable {base target : Address} {r : Reference}

theorem resolve?_eq_some_iff :
    r.resolve? base = some target ↔
      r.col.resolve? base.col = some target.col ∧ r.row.resolve? base.row = some target.row := by
  unfold resolve?
  constructor
  · intro found
    obtain ⟨col, colFound, found⟩ := Option.bind_eq_some_iff.1 found
    obtain ⟨row, rowFound, found⟩ := Option.bind_eq_some_iff.1 found
    cases found
    exact ⟨colFound, rowFound⟩
  · intro both
    rw [both.1, both.2]
    rfl

def marked (r : Reference) (target : Address) : List Char :=
  r.col.marker ++ (Address.letters target.col.ordinal ++
    (r.row.marker ++ Nat.toDigits 10 target.row.ordinal))

theorem write?_of_resolves (denotes : r.resolve? base = some target) :
    r.write? base = some (r.marked target) := by
  unfold write? marked
  rw [denotes, Option.map_some]
  simp only [List.append_assoc]

section

variable {first ls second ds : List Char}

theorem head?_parts (firstFine : Address.IsMarker first) (nonempty : ls ≠ [])
    (alpha : ∀ c ∈ ls, c.isAlpha = true) (rest : List Char) :
    decide ((first ++ (ls ++ rest)).head? = some '$') = decide (first = ['$']) := by
  rcases firstFine with rfl | rfl
  · rw [List.nil_append, decide_eq_false (Address.head?_ne_of_letters nonempty alpha rest)]
    rfl
  · rfl

theorem contains_tail_parts (firstFine : Address.IsMarker first) (nonempty : ls ≠ [])
    (alpha : ∀ c ∈ ls, c.isAlpha = true) (secondFine : Address.IsMarker second)
    (digits : ∀ c ∈ ds, c.isDigit = true) :
    (first ++ (ls ++ (second ++ ds))).tail.contains '$' = decide (second = ['$']) := by
  have letters : '$' ∉ ls := fun member => absurd (alpha '$' member) (by decide)
  have numeral : '$' ∉ ds := fun member => absurd (digits '$' member) (by decide)
  have front : '$' ∉ (first ++ ls).tail := by
    rcases firstFine with rfl | rfl
    · exact fun member => letters (List.mem_of_mem_tail member)
    · exact letters
  rw [← List.append_assoc, List.tail_append_of_ne_nil (List.append_ne_nil_of_right_ne_nil _ nonempty),
    List.contains_eq_mem]
  refine decide_eq_decide.2 ?_
  rw [List.mem_append, List.mem_append]
  rcases secondFine with rfl | rfl
  · simp [front, numeral]
  · simp

/-- A name with dollar signs is read as a reference to its cell, fixed on the axes that have one. -/
theorem ofChars?_parts (firstFine : Address.IsMarker first) (nonempty : ls ≠ [])
    (alpha : ∀ c ∈ ls, c.isAlpha = true) (secondFine : Address.IsMarker second)
    (digits : ∀ c ∈ ds, c.isDigit = true)
    (named : Address.ofChars? (first ++ (ls ++ (second ++ ds))) = some target) :
    ofChars? base (first ++ (ls ++ (second ++ ds))) =
      some ⟨.of (first = ['$']) target.col base.col, .of (second = ['$']) target.row base.row⟩ := by
  have head := head?_parts firstFine nonempty alpha (second ++ ds)
  have tail := contains_tail_parts firstFine nonempty alpha secondFine digits
  unfold ofChars?
  rw [named]
  simp only [head, tail]
  rfl

end

theorem ofChars?_marked (denotes : r.resolve? base = some target) (nameable : target.Nameable) :
    ofChars? base (r.marked target) = some r := by
  obtain ⟨col, row⟩ := resolve?_eq_some_iff.1 denotes
  have named : Address.ofChars? (r.marked target) = some target :=
    Address.ofChars?_marked r.col.marker_isMarker r.row.marker_isMarker nameable
  unfold marked at named ⊢
  rw [ofChars?_parts r.col.marker_isMarker (Address.letters_ne_nil target.col.ordinal (Nat.succ_pos _))
    (Address.isAlpha_of_mem_letters _) r.row.marker_isMarker
    (fun _ member => Address.isDigit_of_mem_toDigits member) named,
    Coord.of_resolved col, Coord.of_resolved row]

end Reference

end Worksheet
