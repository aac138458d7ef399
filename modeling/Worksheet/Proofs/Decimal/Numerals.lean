import Mathlib.Data.List.TakeWhile
import Worksheet.Proofs.Decimal.Nearest
import Worksheet.Proofs.Decimal.Words
import Worksheet.Proofs.Naming
import Worksheet.Token.Scan

/-! Numerals of formulas. The plain form of a number is made of digits with at most one point among
them, and it is read back as a number that stands for the same magnitude. -/

namespace Worksheet

namespace Decimal

inductive IsPlain : List Char → Prop
  | whole {whole : List Char} (nonempty : whole ≠ []) (digits : ∀ c ∈ whole, c.isDigit = true) :
      IsPlain whole
  | pointed {whole fraction : List Char} (nonempty : whole ≠ [])
      (digits : ∀ c ∈ whole, c.isDigit = true) (more : ∀ c ∈ fraction, c.isDigit = true) :
      IsPlain (whole ++ '.' :: fraction)

theorem IsPlain.exists_cons {cs : List Char} (plain : IsPlain cs) :
    ∃ c rest, cs = c :: rest ∧ c.isDigit = true := by
  cases plain with
  | whole nonempty digits =>
    obtain ⟨c, rest, rfl⟩ := List.exists_cons_of_ne_nil nonempty
    exact ⟨c, rest, rfl, digits c List.mem_cons_self⟩
  | pointed nonempty digits more =>
    obtain ⟨c, rest, rfl⟩ := List.exists_cons_of_ne_nil nonempty
    exact ⟨c, _, rfl, digits c List.mem_cons_self⟩

theorem isDigit_of_mem_replicate {count : Nat} {c : Char} (member : c ∈ List.replicate count '0') :
    c.isDigit = true := by
  rw [List.eq_of_mem_replicate member]
  decide

theorem plain_of_nonneg {d : Decimal} (whole : 0 ≤ d.exponent) :
    d.plain = Nat.toDigits 10 d.digits ++ List.replicate d.exponent.toNat '0' := by
  unfold plain
  exact if_pos whole

theorem plain_of_point_nonpos {d : Decimal} (fraction : d.exponent < 0) (small : d.point ≤ 0) :
    d.plain = ['0'] ++ '.' :: (List.replicate (-d.point).toNat '0' ++ Nat.toDigits 10 d.digits) := by
  unfold plain
  simp only
  rw [if_neg (by omega), if_pos small]
  rfl

theorem plain_of_point_pos {d : Decimal} (fraction : d.exponent < 0) (large : 0 < d.point) :
    d.plain = (Nat.toDigits 10 d.digits).take d.point.toNat ++
      '.' :: (Nat.toDigits 10 d.digits).drop d.point.toNat := by
  unfold plain
  simp only
  rw [if_neg (by omega), if_neg (by omega)]

theorem isPlain_plain (d : Decimal) : IsPlain d.plain := by
  have digit : ∀ c ∈ Nat.toDigits 10 d.digits, c.isDigit = true :=
    fun c member => Address.isDigit_of_mem_toDigits member
  rcases Int.lt_or_le d.exponent 0 with fraction | whole
  · rcases Int.lt_or_le 0 d.point with large | small
    · rw [plain_of_point_pos fraction large]
      refine .pointed ?_ (fun c member => digit c (List.mem_of_mem_take member))
        (fun c member => digit c (List.mem_of_mem_drop member))
      rw [Ne, List.take_eq_nil_iff, not_or]
      exact ⟨by omega, Nat.toDigits_ne_nil⟩
    · rw [plain_of_point_nonpos fraction small]
      refine .pointed (List.cons_ne_nil _ _) (List.forall_mem_singleton.2 (by decide))
        fun c member => ?_
      rcases List.mem_append.1 member with zero | inner
      · exact isDigit_of_mem_replicate zero
      · exact digit c inner
  · rw [plain_of_nonneg whole]
    refine .whole (List.append_ne_nil_of_left_ne_nil Nat.toDigits_ne_nil _) fun c member => ?_
    rcases List.mem_append.1 member with inner | zero
    · exact digit c inner
    · exact isDigit_of_mem_replicate zero

theorem ofChars?_whole {whole : List Char} (nonempty : whole ≠ [])
    (digits : ∀ c ∈ whole, c.isDigit = true) :
    ofChars? whole = some ⟨Nat.ofDigitChars 10 whole 0, 0⟩ := by
  have taken : whole.takeWhile Char.isDigit = whole := List.takeWhile_eq_self_iff.2 digits
  have dropped : whole.dropWhile Char.isDigit = [] := List.dropWhile_eq_nil_iff.2 digits
  unfold ofChars?
  simp only [taken, dropped, splitFraction, exponentOfChars?]
  rw [if_neg fun both => nonempty both.1, List.append_nil]
  rfl

theorem ofChars?_pointed {whole fraction : List Char} (nonempty : whole ≠ [])
    (digits : ∀ c ∈ whole, c.isDigit = true) (more : ∀ c ∈ fraction, c.isDigit = true) :
    ofChars? (whole ++ '.' :: fraction) =
      some ⟨Nat.ofDigitChars 10 (whole ++ fraction) 0, -(fraction.length : Int)⟩ := by
  have taken : (whole ++ '.' :: fraction).takeWhile Char.isDigit = whole := by
    rw [List.takeWhile_append_of_pos digits, List.takeWhile_cons_of_neg (by decide), List.append_nil]
  have dropped : (whole ++ '.' :: fraction).dropWhile Char.isDigit = '.' :: fraction := by
    rw [List.dropWhile_append_of_pos digits, List.dropWhile_cons_of_neg (by decide)]
  have taken' : fraction.takeWhile Char.isDigit = fraction := List.takeWhile_eq_self_iff.2 more
  have dropped' : fraction.dropWhile Char.isDigit = [] := List.dropWhile_eq_nil_iff.2 more
  unfold ofChars?
  simp only [taken, dropped, splitFraction, taken', dropped', exponentOfChars?]
  rw [if_neg fun both => nonempty both.1, Option.map_some, zero_sub]

section

variable {d : Decimal}

theorem ofChars?_plain_of_point_pos (fraction : d.exponent < 0) (large : 0 < d.point) :
    ofChars? d.plain = some d := by
  have digit : ∀ c ∈ Nat.toDigits 10 d.digits, c.isDigit = true :=
    fun c member => Address.isDigit_of_mem_toDigits member
  have count : (Nat.toDigits 10 d.digits).length = digitCount d.digits := rfl
  have point : d.point = digitCount d.digits + d.exponent := rfl
  have exponent : -((digitCount d.digits - d.point.toNat : Nat) : Int) = d.exponent := by omega
  rw [plain_of_point_pos fraction large, ofChars?_pointed, List.take_append_drop,
    Nat.ofDigitChars_ten_toDigits, List.length_drop, count, exponent]
  · rw [Ne, List.take_eq_nil_iff, not_or]
    exact ⟨by omega, Nat.toDigits_ne_nil⟩
  · exact fun c member => digit c (List.mem_of_mem_take member)
  · exact fun c member => digit c (List.mem_of_mem_drop member)

theorem ofChars?_plain_of_point_nonpos (fraction : d.exponent < 0) (small : d.point ≤ 0) :
    ofChars? d.plain = some d := by
  have count : (Nat.toDigits 10 d.digits).length = digitCount d.digits := rfl
  have point : d.point = digitCount d.digits + d.exponent := rfl
  have exponent : -(((-d.point).toNat + digitCount d.digits : Nat) : Int) = d.exponent := by omega
  have zeros : Nat.ofDigitChars 10 (['0'] ++ List.replicate (-d.point).toNat '0') 0 = 0 := by
    rw [Nat.ofDigitChars_append, Nat.ofDigitChars_replicate_zero]
    rfl
  rw [plain_of_point_nonpos fraction small, ofChars?_pointed (List.cons_ne_nil _ _)
    (List.forall_mem_singleton.2 (by decide)), List.length_append, List.length_replicate, count,
    ← List.append_assoc, Nat.ofDigitChars_append, exponent, zeros, Nat.ofDigitChars_ten_toDigits]
  intro c member
  rcases List.mem_append.1 member with zero | inner
  · exact isDigit_of_mem_replicate zero
  · exact Address.isDigit_of_mem_toDigits inner

theorem ofChars?_plain_of_nonneg (whole : 0 ≤ d.exponent) :
    ofChars? d.plain = some ⟨10 ^ d.exponent.toNat * d.digits, 0⟩ := by
  rw [plain_of_nonneg whole, ofChars?_whole (List.append_ne_nil_of_left_ne_nil Nat.toDigits_ne_nil _),
    Nat.ofDigitChars_append, Nat.ofDigitChars_ten_toDigits, Nat.ofDigitChars_replicate_zero]
  intro c member
  rcases List.mem_append.1 member with inner | zero
  · exact Address.isDigit_of_mem_toDigits inner
  · exact isDigit_of_mem_replicate zero

end

/-- The plain form is read back as a number with the same nearest magnitude. -/
theorem ofChars?_plain (d : Decimal) :
    ∃ read, ofChars? d.plain = some read ∧ read.toBits = d.toBits := by
  rcases Int.lt_or_le d.exponent 0 with fraction | whole
  · rcases Int.lt_or_le 0 d.point with large | small
    · exact ⟨d, ofChars?_plain_of_point_pos fraction large, rfl⟩
    · exact ⟨d, ofChars?_plain_of_point_nonpos fraction small, rfl⟩
  · refine ⟨_, ofChars?_plain_of_nonneg whole, ?_⟩
    rw [Nat.mul_comm, toBits_mul_pow, zero_add, Int.toNat_of_nonneg whole]

theorem formulaChars_toFloat {bits : Nat} (finite : bits < Binary64.infinity) :
    formulaChars (Binary64.toFloat bits) = (shortest .up bits).plain := by
  unfold formulaChars
  rw [Binary64.shape_toFloat finite]
  rfl

end Decimal

theorem Token.numberOfChars?_formulaChars {bits : Nat} (finite : bits < Decimal.Binary64.infinity) :
    numberOfChars? (Decimal.formulaChars (Decimal.Binary64.toFloat bits)) =
      some (Decimal.Binary64.toFloat bits) := by
  obtain ⟨d, read, same⟩ := Decimal.ofChars?_plain (Decimal.shortest .up bits)
  rw [Decimal.toBits_shortest .up finite] at same
  rw [Decimal.formulaChars_toFloat finite]
  unfold numberOfChars? Decimal.toFloat
  rw [read]
  simp only [same]
  exact if_pos finite

end Worksheet
