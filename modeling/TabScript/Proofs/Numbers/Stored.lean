import TabScript.Proofs.Numbers.Doubles

/-! Magnitudes as doubles hold them.

A magnitude in the form of a double is put into bits and is found in them again. An operation that rounds its
result leaves it as it is where the exact result is such a magnitude, in whichever form it comes. -/

set_option autoImplicit false

namespace TabScript

open Float.Model (UnpackedFloat)
open Float.Model.Format (binary64)
open Float.Model.UnpackedFloat (Sign packComponents unpackSign_packComponents unpackExponent_packComponents
  unpackMantissa_packComponents)

namespace Dyadic

structure Stored (size : Dyadic) : Prop extends size.Canonical where
  positive : 0 < size.significand
  high : size.exponent ≤ 971

def biased (size : Dyadic) : Nat := if size.significand < 2 ^ 52 then 0 else (size.exponent + 1075).toNat

variable {size : Dyadic}

def Stored.unpacked (stored : size.Stored) (sign : Sign) : UnpackedFloat :=
  .finite sign size.significand size.exponent stored.positive

def Stored.toFloat (stored : size.Stored) (sign : Sign) : Float := ⟨Float.Model.pack (stored.unpacked sign)⟩

theorem Stored.ofModel_pack (stored : size.Stored) {sign : Sign} {unpacked : UnpackedFloat}
    (same : unpacked = stored.unpacked sign) : Float.ofModel (Float.Model.pack unpacked) = stored.toFloat sign := by
  rw [same, toFloat]

theorem Stored.biased_lt (stored : size.Stored) : size.biased < 2047 := by
  have high := stored.high
  unfold biased
  split <;> omega

/-- The exponent and the first place are found again in the bits. -/
theorem Stored.biased_eq (stored : size.Stored) :
    (size.biased = 0 ∧ size.significand < 2 ^ 52 ∧ size.exponent = -1074) ∨
      (size.biased ≠ 0 ∧ 2 ^ 52 ≤ size.significand ∧ size.exponent = (size.biased : Int) - 1075) := by
  have low := stored.low
  have large := stored.large
  unfold biased
  split <;> omega

theorem Stored.log2_eq_iff (stored : size.Stored) : size.significand.log2 = 52 ↔ 2 ^ 52 ≤ size.significand := by
  have small := stored.small
  rw [Nat.log2_eq_iff stored.positive.ne']
  omega

theorem Stored.pack (stored : size.Stored) (sign : Sign) :
    (stored.unpacked sign).pack binary64 =
      packComponents binary64 sign (BitVec.ofNat 11 size.biased) (BitVec.ofNat 52 size.significand) := by
  have low := stored.low
  have high := stored.high
  have exponent : (size.exponent + binary64.exponentBias + binary64.mantissaBitsWithoutImplicit).toNat =
      (size.exponent + 1075).toNat := by
    change (size.exponent + (1023 : Nat) + (52 : Nat)).toNat = _
    omega
  have fits : ¬ 2 ^ binary64.exponentBits ≤ (size.exponent + 1075).toNat + 1 := by
    change ¬ 2 ^ 11 ≤ (size.exponent + 1075).toNat + 1
    omega
  have width : size.significand.log2 + 1 = binary64.mantissaBits ↔ 2 ^ 52 ≤ size.significand := by
    rw [← stored.log2_eq_iff]
    change _ = 1 + 52 ↔ _
    omega
  rw [Stored.unpacked, UnpackedFloat.pack]
  simp only [exponent]
  rw [if_neg fits, biased]
  by_cases small : size.significand < 2 ^ 52
  · rw [if_neg (by omega), if_pos small]
  · rw [if_pos (by omega), if_neg small]

theorem Stored.unpack_pack (stored : size.Stored) (sign : Sign) :
    (stored.toFloat sign).toModel.unpack = stored.unpacked sign := by
  have small := stored.small
  have positive := stored.positive
  have exponent : (BitVec.ofNat 11 size.biased).toNat = size.biased := by
    have := stored.biased_lt
    rw [BitVec.toNat_ofNat]
    omega
  have finite : BitVec.ofNat 11 size.biased ≠ -1#11 := by
    intro same
    have := congrArg BitVec.toNat same
    rw [exponent] at this
    change _ = 2047 at this
    exact stored.biased_lt.ne this
  have zero : BitVec.ofNat 11 size.biased = 0#11 ↔ size.biased = 0 := by
    rw [← BitVec.toNat_inj, exponent]
    rfl
  change UnpackedFloat.unpack binary64 ((stored.unpacked sign).pack binary64) = _
  rw [stored.pack, UnpackedFloat.unpack]
  simp only [unpackSign_packComponents, unpackExponent_packComponents, unpackMantissa_packComponents,
    Sign.ofBitVec_toBitVec]
  rw [if_neg finite]
  unfold Stored.unpacked
  -- the first place is left out of the bits unless the magnitude is one of the smallest
  obtain ⟨smallest, few, lowest⟩ | ⟨ordinary, many, place⟩ := stored.biased_eq
  · have significand : (BitVec.ofNat 52 size.significand).toNat = size.significand := by
      rw [BitVec.toNat_ofNat]
      omega
    have some : BitVec.ofNat 52 size.significand ≠ 0#52 := by
      intro same
      have := congrArg BitVec.toNat same
      rw [significand] at this
      exact positive.ne' this
    rw [if_pos (zero.2 smallest), dif_neg some]
    congr 1
    rw [exponent, smallest, lowest]
    rfl
  · have significand : (1#1 ++ BitVec.ofNat 52 size.significand).toNat = size.significand := by
      rw [BitVec.toNat_append, ← Nat.shiftLeft_add_eq_or_of_lt (BitVec.isLt _), BitVec.toNat_ofNat,
        BitVec.toNat_ofNat]
      omega
    rw [if_neg (ordinary ∘ zero.1)]
    congr 1
    rw [exponent, place]
    rfl

theorem toNat_packComponents (sign : Sign) (exponent : BitVec 11) (fraction : BitVec 52) :
    (packComponents binary64 sign exponent fraction).toNat =
      (sign.toBitVec.toNat * 2 ^ 11 + exponent.toNat) * 2 ^ 52 + fraction.toNat := by
  rw [packComponents, BitVec.toNat_append, BitVec.toNat_append, ← Nat.shiftLeft_add_eq_or_of_lt exponent.isLt,
    ← Nat.shiftLeft_add_eq_or_of_lt fraction.isLt, Nat.shiftLeft_eq, Nat.shiftLeft_eq]

theorem Stored.ofFloat_toFloat (stored : size.Stored) (sign : Sign) :
    Magnitude.ofFloat (stored.toFloat sign) = .finite (sign == .negative) size := by
  have small := stored.small
  have bound := stored.biased_lt
  have shape := stored.biased_eq
  have bits : (stored.toFloat sign).toBits.toNat =
      (sign.toBitVec.toNat * 2 ^ 11 + size.biased) * 2 ^ 52 + size.significand % 2 ^ 52 := by
    change ((stored.unpacked sign).pack binary64).toNat = _
    rw [stored.pack, toNat_packComponents, BitVec.toNat_ofNat, BitVec.toNat_ofNat]
    omega
  have sign_bit : sign.toBitVec.toNat < 2 := sign.toBitVec.isLt
  have negative : (sign == .negative) = (sign.toBitVec.toNat == 1) := by cases sign <;> rfl
  obtain ⟨significand, exponent⟩ := size
  rw [negative, Magnitude.ofFloat, bits]
  generalize Dyadic.biased _ = biased at *
  dsimp only [Nat.pow_eq] at *
  generalize sign.toBitVec.toNat = bit at *
  have sign_found : (((bit * 2 ^ 11 + biased) * 2 ^ 52 + significand % 2 ^ 52) / 2 ^ 63 == 1) = (bit == 1) := by
    congr 1
    omega
  rw [sign_found]
  obtain ⟨smallest, few, lowest⟩ | ⟨ordinary, many, place⟩ := shape
  · rw [if_pos (by omega), Magnitude.finite.injEq, Dyadic.mk.injEq]
    exact ⟨rfl, by omega, lowest.symm⟩
  · rw [if_neg (by omega), if_pos (by omega), Magnitude.finite.injEq, Dyadic.mk.injEq]
    exact ⟨rfl, by omega, by omega⟩

/-! A number has many forms. They differ in the zeros at the end, and the first place is the same in all of them. -/

variable {significand : Nat} {exponent : Int} {first second : Dyadic}

theorem value_pos (some : 0 < size.significand) : 0 < size.value :=
  mul_pos (Nat.cast_pos.2 some) (zpow_pos (by norm_num) _)

theorem value_eq_zero (none : size.significand = 0) : size.value = 0 := by
  rw [value, none, Nat.cast_zero, zero_mul]

theorem value_eq_iff (below : exponent ≤ size.exponent) : value ⟨significand, exponent⟩ = size.value ↔
    significand = size.significand * 2 ^ (size.exponent - exponent).toNat := by
  have unit : (2 : ℚ) ^ exponent ≠ 0 := zpow_ne_zero _ (by norm_num)
  obtain ⟨places, shift⟩ := Int.eq_ofNat_of_zero_le (Int.sub_nonneg.2 below)
  have larger : size.exponent = places + exponent := by omega
  rw [value, value, larger, zpow_add₀ (by norm_num), ← mul_assoc, mul_left_inj' unit, zpow_natCast,
    Int.add_sub_cancel, Int.toNat_natCast]
  exact_mod_cast Iff.rfl

def place (size : Dyadic) : Int := Float.Model.totalExponent size.significand size.exponent

theorem value_lt (size : Dyadic) : size.value < 2 ^ size.place := by
  have large : (size.significand : ℚ) < 2 ^ (size.significand.log2 + 1) := by
    exact_mod_cast Nat.lt_log2_self
  rw [place, Float.Model.totalExponent, zpow_add₀ (by norm_num)]
  exact mul_lt_mul_of_pos_right (by exact_mod_cast large) (zpow_pos (by norm_num) _)

theorem le_value (some : 0 < size.significand) : 2 ^ (size.place - 1) ≤ size.value := by
  have small : (2 : ℚ) ^ size.significand.log2 ≤ size.significand := by
    exact_mod_cast Nat.log2_self_le some.ne'
  have less : size.place - 1 = size.significand.log2 + size.exponent := by
    rw [place, Float.Model.totalExponent]
    omega
  rw [less, zpow_add₀ (by norm_num), zpow_natCast]
  exact mul_le_mul_of_nonneg_right small (zpow_nonneg (by norm_num) _)

theorem place_le (some : 0 < first.significand) (less : first.value ≤ second.value) :
    first.place ≤ second.place := by
  have between : (2 : ℚ) ^ (first.place - 1) < 2 ^ second.place :=
    ((le_value some).trans less).trans_lt second.value_lt
  have := (zpow_lt_zpow_iff_right₀ (by norm_num)).1 between
  omega

theorem place_eq (some : 0 < second.significand) (same : first.value = second.value) :
    first.place = second.place := by
  have some' : 0 < first.significand :=
    Nat.pos_of_ne_zero fun none => (value_pos some).ne' (same.symm.trans (value_eq_zero none))
  exact le_antisymm (place_le some' same.le) (place_le some same.ge)

theorem Stored.log2_lt (stored : size.Stored) : size.significand.log2 < 53 :=
  (Nat.log2_lt stored.positive.ne').2 stored.small

theorem Stored.place_le (stored : size.Stored) : size.place ≤ 53 + size.exponent := by
  have := stored.log2_lt
  rw [place, Float.Model.totalExponent]
  omega

/-! Zeros are put at the end of a number where there are places left. -/

theorem log2_shifted (some : 0 < significand) (places : Nat) :
    (significand * 2 ^ places).log2 = significand.log2 + places := by
  have unit : 0 < 2 ^ places := Nat.pow_pos (by decide)
  rw [Nat.log2_eq_iff (Nat.mul_pos some unit).ne', pow_add, Nat.add_right_comm, pow_add]
  exact ⟨Nat.mul_le_mul_right _ (Nat.log2_self_le some.ne'), Nat.mul_lt_mul_of_pos_right Nat.lt_log2_self unit⟩

theorem shifted_lt (some : 0 < significand) {places : Nat} (few : significand.log2 + places ≤ 52) :
    significand * 2 ^ places < 2 ^ 53 := by
  have unit : 0 < 2 ^ places := Nat.pow_pos (by decide)
  rw [← Nat.log2_lt (Nat.mul_pos some unit).ne', log2_shifted some]
  omega

theorem le_shifted (some : 0 < significand) {places : Nat} (full : significand.log2 + places = 52) :
    2 ^ 52 ≤ significand * 2 ^ places := by
  have unit : 0 < 2 ^ places := Nat.pow_pos (by decide)
  rw [← Nat.le_log2 (Nat.mul_pos some unit).ne', log2_shifted some, full]

theorem exists_stored (some : 0 < size.significand) (few : size.significand < 2 ^ 53) (low : -1074 ≤ size.exponent)
    (high : size.exponent ≤ 971) : ∃ other : Dyadic, other.Stored ∧ other.value = size.value := by
  have width : size.significand.log2 < 53 := (Nat.log2_lt some.ne').2 few
  -- there is room for so many zeros, unless the exponent reaches its lower end before
  obtain ⟨places, room, full, least⟩ : ∃ places : Nat, size.significand.log2 + places ≤ 52 ∧
      (size.significand.log2 + places = 52 ∨ size.exponent - places = -1074) ∧ -1074 ≤ size.exponent - places :=
    ⟨min (52 - size.significand.log2) (size.exponent + 1074).toNat, by omega, by omega, by omega⟩
  refine ⟨⟨size.significand * 2 ^ places, size.exponent - places⟩, ?_, ?_⟩
  · exact {
      small := shifted_lt some room
      low := least
      large := full.imp_left (le_shifted some)
      positive := Nat.mul_pos some (Nat.pow_pos (by decide))
      high := by dsimp only; omega }
  · rw [value_eq_iff (by omega)]
    congr 2
    omega

/-! Nothing is lost where zeros at the end are cut. -/

theorem Stored.target (stored : size.Stored) (same : value ⟨significand, exponent⟩ = size.value) :
    binary64.targetExponent (Float.Model.totalExponent significand exponent) = size.exponent := by
  have low := stored.low
  have large := stored.large
  have width := stored.log2_lt
  have full := stored.log2_eq_iff
  rw [show Float.Model.totalExponent significand exponent = size.place from place_eq stored.positive same, place,
    Float.Model.totalExponent, Float.Model.Format.targetExponent]
  change max ((size.significand.log2 : Int) + 1 + size.exponent - ((53 : Nat) : Int)) (-1074) = _
  omega

theorem shiftRight_eq (significand places : Nat) :
    (UnpackedFloat.ExtendedMantissa.mk (significand * 2 ^ places) false false) >>> places =
      ⟨significand, false, false⟩ := by
  change Nat.repeat _ places _ = _
  induction places generalizing significand with
  | zero => simp [Nat.repeat]
  | succ places ih =>
    have again : significand * 2 ^ (places + 1) = significand * 2 * 2 ^ places := by ring
    rw [Nat.repeat, again, ih]
    simp [UnpackedFloat.ExtendedMantissa.shiftRightOne]

theorem Stored.shift (stored : size.Stored) (below : exponent ≤ size.exponent)
    (same : value ⟨significand, exponent⟩ = size.value) :
    UnpackedFloat.shiftToTargetExponent binary64 significand exponent .exact =
      (⟨size.significand, false, false⟩, size.exponent) := by
  rw [UnpackedFloat.shiftToTargetExponent, stored.target same, UnpackedFloat.shiftToExponent,
    (value_eq_iff below).1 same]
  simp only [UnpackedFloat.ExtendedMantissa.ofMantissaAndAccuracy, shiftRight_eq]
  rw [Int.toNat_of_nonneg (Int.sub_nonneg.2 below), add_sub_cancel]

/-- Rounding that can only cut places leaves a number as it is that has no more of them than there is room for. -/
theorem Stored.roundWithAccuracy_eq (stored : size.Stored) (sign : Sign) (below : exponent ≤ size.exponent)
    (same : value ⟨significand, exponent⟩ = size.value) :
    UnpackedFloat.roundWithAccuracy binary64 sign significand exponent .exact = stored.unpacked sign := by
  have rounded : (UnpackedFloat.ExtendedMantissa.mk size.significand false false).roundedMantissa =
      size.significand := rfl
  unfold UnpackedFloat.roundWithAccuracy
  simp only [stored.shift below same, rounded, stored.shift le_rfl rfl, stored.positive.ne', ↓reduceDIte]
  rfl

theorem Stored.round_eq (stored : size.Stored) (sign : Sign) (same : value ⟨significand, exponent⟩ = size.value) :
    UnpackedFloat.round binary64 sign significand exponent = stored.unpacked sign := by
  -- the number is shifted by no places if its exponent is small enough already
  have longer : value ⟨significand <<< (exponent - size.exponent).toNat,
      exponent - (exponent - size.exponent).toNat⟩ = value ⟨significand, exponent⟩ := by
    rw [Nat.shiftLeft_eq, value_eq_iff (by dsimp only; omega)]
    congr 2
    dsimp only
    omega
  rw [UnpackedFloat.round, stored.target same, UnpackedFloat.decreaseExponent]
  exact stored.roundWithAccuracy_eq sign (by omega) (longer.trans same)

end Dyadic

end TabScript
