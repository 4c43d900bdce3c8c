import TabScript.Proofs.Numbers.Arithmetic
import TabScript.Value.Exchange

/-! Whole numbers as doubles.

A double has 53 places, so that a whole number that needs no more of them is one. The operations that make the
double of it shift it up until it fills all places, and nothing that they cut off afterwards is more than zeros. -/

set_option autoImplicit false

namespace TabScript

open Float.Model (UnpackedFloat)
open Float.Model.Format (binary64)
open Float.Model.UnpackedFloat (Sign)

namespace Dyadic

structure Normal (number : Dyadic) : Prop where
  large : 2 ^ 52 ≤ number.significand
  small : number.significand < 2 ^ 53
  low : -1074 ≤ number.exponent
  high : number.exponent ≤ 971

variable {size : Dyadic}

theorem Normal.positive (normal : size.Normal) : 0 < size.significand :=
  Nat.lt_of_lt_of_le (by norm_num) normal.large

def Normal.unpacked (normal : size.Normal) (sign : Sign) : UnpackedFloat :=
  .finite sign size.significand size.exponent normal.positive

theorem Normal.stored (normal : size.Normal) : size.Stored where
  small := normal.small
  low := normal.low
  large := .inl normal.large
  positive := normal.positive
  high := normal.high

/-! The double that is made of a whole number. -/

def whole (number : Nat) : Dyadic := ⟨number * 2 ^ (52 - number.log2), -((52 - number.log2 : Nat) : Int)⟩

variable {number : Nat}

theorem normal_whole (some : 0 < number) (small : number < 2 ^ 53) : (whole number).Normal := by
  have log2 : number.log2 < 53 := (Nat.log2_lt some.ne').2 small
  exact ⟨le_shifted some (by omega), shifted_lt some (by omega), by dsimp only [whole]; omega,
    by dsimp only [whole]; omega⟩

theorem value_whole (number : Nat) : (whole number).value = number := by
  rw [value, whole, zpow_neg, zpow_natCast]
  push_cast
  exact mul_inv_cancel_right₀ (pow_ne_zero _ (by norm_num)) _

theorem value_natural (number : Nat) : value ⟨number, 0⟩ = number := by
  rw [value, zpow_zero, mul_one]

theorem unpacked_ofNat (some : 0 < number) (small : number < 2 ^ 53) :
    UnpackedFloat.ofNat binary64 number = (normal_whole some small).unpacked .positive := by
  have same : value ⟨number, 0⟩ = (whole number).value := (value_natural number).trans (value_whole number).symm
  exact (Number.normalize_apply some .positive 0 .positive).trans
    ((normal_whole some small).stored.round_eq .positive same)

end Dyadic

namespace Number

variable {number : Nat}

theorem toFloat_toUInt64 (some : 0 < number) (small : number < 2 ^ 53) :
    number.toUInt64.toFloat = (Dyadic.normal_whole some small).stored.toFloat .positive := by
  have same : number.toUInt64.toNat = number := Nat.mod_eq_of_lt (by omega)
  change Float.ofModel (Float.Model.pack (UnpackedFloat.ofNat binary64 number.toUInt64.toNat)) = _
  rw [same, Dyadic.unpacked_ofNat some small]
  rfl

theorem ofScientific_whole (some : 0 < number) (small : number < 2 ^ 53) :
    Float.ofScientific number false 0 =
      ⟨Float.Model.pack ((Dyadic.normal_whole some small).unpacked .positive)⟩ := by
  have stored := (Dyadic.normal_whole some small).stored
  have one : (Float.exactlyRepresentablePowersOfTen[0]).toModel.unpack =
      .finite .positive (2 ^ 52) (-52) (by decide) := rfl
  have product : (Dyadic.whole number).value * Dyadic.value ⟨2 ^ 52, -52⟩ = (Dyadic.whole number).value := by
    rw [Dyadic.value, Dyadic.value]
    norm_num
  unfold Float.ofScientific
  rw [dif_pos ⟨small, by decide⟩, toFloat_toUInt64 some small]
  change Float.ofModel (Float.Model.pack (UnpackedFloat.mul binary64 (stored.toFloat .positive).toModel.unpack
    (Float.exactlyRepresentablePowersOfTen[0]).toModel.unpack)) = _
  rw [stored.unpack_pack, one]
  exact stored.ofModel_pack
    (stored.mul_eq stored.positive (by decide) (by dsimp only; omega) product .positive .positive)

/-- An integer of moderate size is made a double without being rounded. -/
theorem value?_ofInt {number : Int} (small : number.natAbs < 2 ^ 53) :
    value? (ofInt number) = some (number : ℚ) := by
  have size : value? (Float.ofScientific number.natAbs false 0) = some (number.natAbs : ℚ) := by
    rcases Nat.eq_zero_or_pos number.natAbs with zero | nonzero
    · rw [zero]
      exact toInt?_eq_some_iff.1 (by decide +kernel : toInt? (Float.ofScientific 0 false 0) = some 0)
    · rw [ofScientific_whole nonzero small, ← Dyadic.value_whole]
      exact (Dyadic.normal_whole nonzero small).stored.value?_toFloat .positive
  rw [ofInt, value?_signed _ size, Nat.cast_natAbs]
  split
  · rename_i negative
    rw [abs_of_neg (of_decide_eq_true negative), Int.cast_neg, neg_neg]
  · rename_i positive
    rw [abs_of_nonneg (by simpa using positive)]

/-- A double that is read as an integer of moderate size is made of it again. -/
theorem beq_ofInt {number : Float} {whole : Int} (read : toInt? number = some whole)
    (small : whole.natAbs < exactLimit) : (number == ofInt whole) = true :=
  beq_of_value?_eq (toInt?_eq_some_iff.1 read) (value?_ofInt small)

end Number

end TabScript
