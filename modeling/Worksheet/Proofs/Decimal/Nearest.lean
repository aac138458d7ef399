import Mathlib.Tactic
import Worksheet.Decimal.Layout

/-! Magnitudes nearest to decimal numbers. The nearest magnitude depends on the value of a number and
not on how it is written, a magnitude is the nearest one to its own value, and so the shortest number
that stands for a magnitude is read back as that magnitude. -/

namespace Worksheet.Decimal

namespace Binary64

theorem roundQuotient_mul {k : Nat} (positive : 0 < k) (num den : Nat) :
    roundQuotient (k * num) (k * den) = roundQuotient num den := by
  have scale : ∀ x y, k * x < k * y ↔ x < y := fun x y => Nat.mul_lt_mul_left positive
  unfold roundQuotient
  simp only
  rw [Nat.mul_div_mul_left num den positive, Nat.mul_mod_mul_left, Nat.mul_left_comm 2]
  simp only [scale]

theorem roundQuotient_exact {den : Nat} (positive : 0 < den) (whole : Nat) :
    roundQuotient (whole * den) den = whole := by
  unfold roundQuotient
  rw [Nat.mul_div_cancel whole positive, Nat.mul_mod_left]
  exact if_pos positive

theorem nearest_mul {k : Nat} (positive : 0 < k) (num den : Nat) :
    nearest (k * num) (k * den) = nearest num den := by
  unfold nearest
  simp only [Nat.mul_assoc]
  rw [Nat.mul_div_mul_left _ den positive, roundQuotient_mul positive]

theorem one_pos : 0 < one := by
  unfold one
  generalize 1074 = scale
  exact Nat.two_pow_pos scale

/-- The binary digits of a magnitude: its leading one stands just above its shift, or among the last
52 digits when there is no shift. -/
theorem log2_units {bits : Nat} : Nat.log2 (units bits) - 52 = shift bits := by
  unfold units significand shift leadingBit
  rw [Nat.pow_eq]
  split
  next small =>
    have none : bits / 4503599627370496 - 1 = 0 := by omega
    rw [none, pow_zero, Nat.mul_one]
    by_cases zero : bits = 0
    · subst zero
      rfl
    · have bound : bits.log2 < 52 := (Nat.log2_lt zero).2 small
      omega
  next large =>
    have nonzero : (4503599627370496 + bits % 4503599627370496) *
        2 ^ (bits / 4503599627370496 - 1) ≠ 0 :=
      Nat.mul_ne_zero (by omega) (Nat.pow_pos (by decide)).ne'
    have lower := (Nat.le_log2 (k := 52 + (bits / 4503599627370496 - 1)) nonzero).2 (by
      rw [Nat.pow_add]
      exact Nat.mul_le_mul_right _ (by omega))
    have upper := (Nat.log2_lt (k := 53 + (bits / 4503599627370496 - 1)) nonzero).2 (by
      rw [Nat.pow_add]
      exact Nat.mul_lt_mul_of_pos_right (by omega) (Nat.pow_pos (by decide)))
    omega

theorem shift_significand (bits : Nat) : shift bits * leadingBit + significand bits = bits := by
  unfold shift significand
  have parts := Nat.div_add_mod bits leadingBit
  split
  next small =>
    rw [Nat.div_eq_of_lt small, Nat.zero_sub, Nat.zero_mul, Nat.zero_add]
  next large =>
    have count : 0 < bits / leadingBit := Nat.div_pos (Nat.le_of_not_lt large) (by decide)
    calc
      (bits / leadingBit - 1) * leadingBit + (leadingBit + bits % leadingBit)
        = (bits / leadingBit - 1 + 1) * leadingBit + bits % leadingBit := by ring
      _ = leadingBit * (bits / leadingBit) + bits % leadingBit := by
        rw [Nat.sub_add_cancel count, Nat.mul_comm]
      _ = bits := parts

theorem nearest_units {bits : Nat} (finite : bits < infinity) : nearest (units bits) one = bits := by
  unfold nearest
  simp only
  rw [Nat.mul_div_cancel _ one_pos, log2_units]
  have exact : units bits * one = significand bits * (one * Nat.pow 2 (shift bits)) := by
    unfold units
    ring
  have positive : 0 < one * Nat.pow 2 (shift bits) := Nat.mul_pos one_pos (Nat.pow_pos Nat.two_pos)
  rw [exact, roundQuotient_exact positive, shift_significand]
  exact Nat.min_eq_right finite.le

end Binary64

theorem digitCount_mul_ten {n : Nat} (positive : 0 < n) : digitCount (10 * n) = digitCount n + 1 := by
  have digits := Nat.toDigits_append_toDigits (b := 10) (d := 0) (by decide) positive (by decide)
  unfold digitCount
  rw [← Nat.add_zero (10 * n), ← digits, List.length_append]
  rfl

theorem toBits_zero (exponent : Int) : toBits ⟨0, exponent⟩ = 0 := by
  unfold toBits
  exact if_pos rfl

theorem toBits_mul_ten (digits : Nat) (exponent : Int) :
    toBits ⟨10 * digits, exponent⟩ = toBits ⟨digits, exponent + 1⟩ := by
  by_cases zero : digits = 0
  · subst zero
    rw [Nat.mul_zero, toBits_zero, toBits_zero]
  · have positive : 0 < digits := Nat.pos_of_ne_zero zero
    have same : point ⟨10 * digits, exponent⟩ = point ⟨digits, exponent + 1⟩ := by
      unfold point
      simp only
      rw [digitCount_mul_ten positive]
      omega
    have value : Binary64.nearest (10 * digits * Nat.pow 10 exponent.toNat)
          (Nat.pow 10 (-exponent).toNat) =
        Binary64.nearest (digits * Nat.pow 10 (exponent + 1).toNat)
          (Nat.pow 10 (-(exponent + 1)).toNat) := by
      simp only [Nat.pow_eq]
      -- Below zero the ten cancels against the denominator, and from zero on it is one power more.
      rcases Int.lt_or_le exponent 0 with negative | whole
      · have none : exponent.toNat = 0 := by omega
        have none' : (exponent + 1).toNat = 0 := by omega
        have more : (-exponent).toNat = (-(exponent + 1)).toNat + 1 := by omega
        rw [none, none', more, pow_succ', Nat.mul_assoc, Binary64.nearest_mul (by decide)]
      · have none : (-exponent).toNat = 0 := by omega
        have none' : (-(exponent + 1)).toNat = 0 := by omega
        have more : (exponent + 1).toNat = exponent.toNat + 1 := by omega
        rw [none, none', more, pow_succ', Nat.mul_assoc, Nat.mul_left_comm]
    unfold toBits
    simp only [same, value]
    rw [if_neg zero, if_neg (Nat.mul_ne_zero (by decide) zero)]

theorem toBits_mul_pow (digits count : Nat) (exponent : Int) :
    toBits ⟨digits * 10 ^ count, exponent⟩ = toBits ⟨digits, exponent + count⟩ := by
  induction count generalizing exponent with
  | zero => rw [pow_zero, Nat.mul_one, Nat.cast_zero, add_zero]
  | succ count ih =>
    rw [pow_succ', Nat.mul_left_comm, toBits_mul_ten, ih]
    congr 2
    push_cast
    ring

theorem toBits_trimDigits (digits : Nat) (exponent : Int) :
    (trimDigits digits exponent).toBits = toBits ⟨digits, exponent⟩ := by
  fun_induction trimDigits digits exponent with
  | case1 exponent => rw [toBits_zero, toBits_zero]
  | case2 digits exponent nonzero divides ih =>
    rw [ih, ← toBits_mul_ten]
    congr 2
    omega
  | case3 digits exponent nonzero last => rfl

theorem toBits_trim (d : Decimal) : d.trim.toBits = d.toBits := toBits_trimDigits d.digits d.exponent

theorem units_pos {bits : Nat} (positive : 0 < bits) : 0 < Binary64.units bits := by
  have significand : 0 < Binary64.significand bits := by
    unfold Binary64.significand Binary64.leadingBit
    split
    · exact positive
    · omega
  exact Nat.mul_pos significand (Nat.pow_pos Nat.two_pos)

theorem units_lt (bits : Nat) : Binary64.units bits < 2 ^ 53 * 2 ^ Binary64.shift bits := by
  have significand : Binary64.significand bits < 2 ^ 53 := by
    unfold Binary64.significand Binary64.leadingBit
    split
    · omega
    · omega
  exact Nat.mul_lt_mul_of_pos_right significand (Nat.two_pow_pos _)

theorem shift_le {bits : Nat} (finite : bits < Binary64.infinity) : Binary64.shift bits ≤ 2045 := by
  unfold Binary64.shift Binary64.leadingBit
  unfold Binary64.infinity at finite
  omega

theorem five_pow_bounds : 0 < Nat.pow 5 1074 ∧ 10 ^ 750 ≤ Nat.pow 5 1074 ∧
    2 ^ 53 * 2 ^ 2045 * Nat.pow 5 1074 ≤ 10 ^ 1383 ∧
    Nat.pow 10 (-(-1074) : Int).toNat = Nat.pow 5 1074 * Binary64.one := by
  decide +kernel

theorem digitCount_le_iff {n count : Nat} (positive : 0 < count) :
    digitCount n ≤ count ↔ n < 10 ^ count :=
  Nat.length_toDigits_le_iff (by decide) positive

/-- The exact value of a magnitude lies between the bounds past which numbers are infinite or zero. -/
theorem point_exact {bits : Nat} (positive : 0 < bits) (finite : bits < Binary64.infinity) :
    -324 < (exact bits).point ∧ (exact bits).point ≤ 309 := by
  obtain ⟨nonzero, least, most, _⟩ := five_pow_bounds
  have small := shift_le finite
  unfold exact point
  -- the powers stay names from here on, so that nothing computes them
  generalize Nat.pow 5 1074 = five at nonzero least most ⊢
  generalize 2045 = top at most small
  have lower : ¬ digitCount (Binary64.units bits * five) ≤ 750 := by
    rw [digitCount_le_iff (by decide), Nat.not_lt]
    have grows := Nat.le_mul_of_pos_left five (units_pos positive)
    exact Nat.le_trans least grows
  have upper : digitCount (Binary64.units bits * five) ≤ 1383 := by
    rw [digitCount_le_iff (by decide)]
    calc
      Binary64.units bits * five < 2 ^ 53 * 2 ^ Binary64.shift bits * five :=
        Nat.mul_lt_mul_of_pos_right (units_lt bits) nonzero
      _ ≤ 2 ^ 53 * 2 ^ top * five :=
        Nat.mul_le_mul_right five (Nat.mul_le_mul_left _ (Nat.pow_le_pow_right Nat.two_pos small))
      _ ≤ 10 ^ 1383 := most
  simp only
  omega

theorem toBits_exact {bits : Nat} (positive : 0 < bits) (finite : bits < Binary64.infinity) :
    (exact bits).toBits = bits := by
  obtain ⟨lower, upper⟩ := point_exact positive finite
  obtain ⟨nonzero, _, _, scale⟩ := five_pow_bounds
  have units := units_pos positive
  unfold exact at lower upper ⊢
  generalize Nat.pow 5 1074 = five at nonzero scale lower upper ⊢
  unfold toBits
  simp only
  rw [if_neg (Nat.mul_ne_zero units.ne' nonzero.ne'), if_neg (by omega), if_neg (by omega)]
  have whole : Nat.pow 10 (-1074 : Int).toNat = 1 := rfl
  rw [whole, scale, Nat.mul_one, Nat.mul_comm, Binary64.nearest_mul nonzero,
    Binary64.nearest_units finite]

/-- The shortest number for a finite magnitude is read back as this magnitude. -/
theorem toBits_shortest (tie : Tie) {bits : Nat} (finite : bits < Binary64.infinity) :
    (shortest tie bits).toBits = bits := by
  unfold shortest
  split
  next zero => rw [toBits_zero, zero]
  next nonzero =>
    rw [toBits_trim]
    cases found : (List.range 17).findSome? fun n => ofDigitCount? tie bits (n + 1) with
    | none =>
      rw [Option.getD_none]
      exact toBits_exact (Nat.pos_of_ne_zero nonzero) finite
    | some d =>
      obtain ⟨n, _, chosen⟩ := List.exists_of_findSome?_eq_some found
      unfold ofDigitCount? at chosen
      have reads := List.find?_some chosen
      rw [Option.getD_some]
      exact of_decide_eq_true reads

end Worksheet.Decimal
