import Mathlib.Tactic
import Worksheet.Decimal.Layout

/-! Words of floating point numbers. The word of a finite magnitude has an exponent field that is not
full, so it passes through the unpacked form unchanged. -/

namespace Worksheet.Decimal.Binary64

open Float.Model Float.Model.UnpackedFloat

theorem toNat_packComponents (exponent : BitVec 11) (mantissa : BitVec 52) :
    (packComponents .binary64 .positive exponent mantissa).toNat =
      exponent.toNat * 2 ^ 52 + mantissa.toNat := by
  unfold packComponents
  rw [BitVec.toNat_append, BitVec.toNat_append, ← Nat.shiftLeft_add_eq_or_of_lt mantissa.isLt,
    Nat.shiftLeft_eq]
  have sign : (Sign.toBitVec .positive).toNat <<< 11 ||| exponent.toNat = exponent.toNat := by
    change 0 ||| exponent.toNat = exponent.toNat
    exact Nat.zero_or _
  exact congrArg (fun field => field * 2 ^ 52 + mantissa.toNat) sign

theorem toNat_pack_subnormal {significand : Nat} {exponent : Int} (positive : 0 < significand)
    (small : significand < 2 ^ 52) (least : exponent = -1074) :
    (UnpackedFloat.pack .binary64 (.finite .positive significand exponent positive)).toNat =
      significand := by
  have short : significand.log2 < 52 := (Nat.log2_lt (by omega)).2 small
  subst least
  unfold UnpackedFloat.pack
  dsimp only
  rw [if_neg (by decide), if_neg (by change ¬ significand.log2 + 1 = 53; omega),
    toNat_packComponents, BitVec.toNat_ofNat]
  change 0 + significand % 2 ^ 52 = significand
  omega

theorem toNat_pack_normal (field rest : Nat) {significand : Nat} {exponent : Int}
    (positive : 0 < significand) (leading : significand = 2 ^ 52 + rest) (small : rest < 2 ^ 52)
    (least : exponent = field - 1075) (notFull : field < 2047) :
    (UnpackedFloat.pack .binary64 (.finite .positive significand exponent positive)).toNat =
      field * 2 ^ 52 + rest := by
  subst leading
  have full : (2 ^ 52 + rest).log2 = 52 := by
    have lower : 52 ≤ (2 ^ 52 + rest).log2 := (Nat.le_log2 (by omega)).2 (by omega)
    have upper : (2 ^ 52 + rest).log2 < 53 := (Nat.log2_lt (by omega)).2 (by omega)
    omega
  have biased : (exponent + Format.binary64.exponentBias +
      Format.binary64.mantissaBitsWithoutImplicit).toNat = field := by
    change (exponent + 1023 + 52).toNat = field
    omega
  unfold UnpackedFloat.pack
  dsimp only
  rw [biased, if_neg (by change ¬ 2048 ≤ field + 1; omega),
    if_pos (by change (2 ^ 52 + rest).log2 + 1 = 53; omega), toNat_packComponents,
    BitVec.toNat_ofNat, BitVec.toNat_ofNat]
  change field % 2 ^ 11 * 2 ^ 52 + (2 ^ 52 + rest) % 2 ^ 52 = field * 2 ^ 52 + rest
  omega

section

variable (word : BitVec Format.binary64.numBits)

theorem toNat_unpackMantissa : (unpackMantissa word).toNat = word.toNat % 2 ^ 52 := by
  unfold unpackMantissa
  rw [BitVec.toNat_cast, BitVec.extractLsb_toNat, Nat.shiftRight_zero]
  rfl

theorem toNat_unpackExponent (positive : word.toNat < 2 ^ 63) :
    (unpackExponent word).toNat = word.toNat / 2 ^ 52 := by
  unfold unpackExponent
  rw [BitVec.toNat_cast, BitVec.extractLsb_toNat, Nat.shiftRight_eq_div_pow]
  exact Nat.mod_eq_of_lt (by change word.toNat / 2 ^ 52 < 2 ^ 11; omega)

theorem unpackSign_of_positive (positive : word.toNat < 2 ^ 63) : unpackSign word = 0#1 := by
  apply BitVec.eq_of_toNat_eq
  unfold unpackSign
  rw [BitVec.toNat_cast, BitVec.extractLsb_toNat, Nat.shiftRight_eq_div_pow]
  change word.toNat / 2 ^ 63 % 2 ^ 1 = 0
  omega

theorem toNat_pack_unpack (finite : word.toNat < infinity) :
    (UnpackedFloat.pack .binary64 (UnpackedFloat.unpack .binary64 word)).toNat = word.toNat := by
  unfold infinity at finite
  have mantissa := toNat_unpackMantissa word
  have exponent := toNat_unpackExponent word (by omega)
  have sign : Sign.ofBitVec (unpackSign word) = .positive := by
    rw [unpackSign_of_positive word (by omega)]
    rfl
  have notFull : unpackExponent word ≠ -1#_ := by
    intro full
    rw [full] at exponent
    change 2047 = word.toNat / 2 ^ 52 at exponent
    omega
  unfold UnpackedFloat.unpack
  dsimp only
  rw [if_neg notFull, sign]
  -- Without an exponent there is no leading one: the word is zero or subnormal.
  by_cases least : unpackExponent word = 0#_
  · rw [if_pos least]
    rw [least] at exponent
    change 0 = word.toNat / 2 ^ 52 at exponent
    by_cases zero : unpackMantissa word = 0#_
    · rw [dif_pos zero]
      rw [zero] at mantissa
      change 0 = word.toNat % 2 ^ 52 at mantissa
      change (packComponents .binary64 .positive 0 0).toNat = word.toNat
      rw [toNat_packComponents]
      change 0 = word.toNat
      omega
    · rw [dif_neg zero, toNat_pack_subnormal]
      · omega
      · omega
      · rw [least]
        rfl
  · have leading : (1#1 ++ unpackMantissa word).toNat = 2 ^ 52 + word.toNat % 2 ^ 52 := by
      rw [BitVec.toNat_append, ← Nat.shiftLeft_add_eq_or_of_lt (unpackMantissa word).isLt, mantissa]
      rfl
    rw [if_neg least, toNat_pack_normal (word.toNat / 2 ^ 52) (word.toNat % 2 ^ 52) _ leading]
    · omega
    · omega
    · rw [exponent]
      rfl
    · omega

end

/-- The number of a finite magnitude has the bits of the magnitude. -/
theorem toBits_toFloat {bits : Nat} (finite : bits < infinity) : (toFloat bits).toBits.toNat = bits := by
  have word : (BitVec.ofNat 64 bits).toNat = bits := by
    unfold infinity at finite
    rw [BitVec.toNat_ofNat]
    omega
  have packed := toNat_pack_unpack (BitVec.ofNat 64 bits) (word.symm ▸ finite)
  rw [word] at packed
  exact packed

theorem shape_toFloat {bits : Nat} (finite : bits < infinity) :
    shape (toFloat bits) = .finite false bits := by
  unfold shape
  rw [toBits_toFloat finite]
  have positive : bits < signBit := lt_trans finite (by decide)
  simp only [Nat.mod_eq_of_lt positive]
  rw [if_pos finite, decide_eq_false (Nat.not_le.2 positive)]

end Worksheet.Decimal.Binary64
