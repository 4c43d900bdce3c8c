import TabScript.Proofs.Numbers.Whole

/-! Magnitudes made doubles.

A magnitude is made a double by way of decimal digits. Nothing is rounded there either if the magnitude is one that a
double can have. -/

set_option autoImplicit false

namespace TabScript

open Float.Model (UnpackedFloat)
open Float.Model.Format (binary64)

namespace Dyadic

variable {size : Dyadic}

theorem Stored.exponent_of_one_le (stored : size.Stored) (large : 1 ≤ size.value) : -53 ≤ size.exponent := by
  have above : (2 : ℚ) ^ (0 : Int) < 2 ^ size.place := by
    rw [zpow_zero]
    exact large.trans_lt size.value_lt
  have := (zpow_lt_zpow_iff_right₀ (by norm_num)).1 above
  have := stored.place_le
  omega

end Dyadic

namespace Number

variable {size : Dyadic} {digits places : Nat}

theorem value?_powerOfTen (places : Fin 23) :
    value? Float.exactlyRepresentablePowersOfTen[places] = some (10 ^ places.val) := by
  have whole : ∀ places : Fin 23,
      toInt? Float.exactlyRepresentablePowersOfTen[places] = some ((10 ^ places.val : Nat) : Int) := by
    decide +kernel
  rw [toInt?_eq_some_iff.1 (whole places)]
  push_cast
  rfl

theorem Held.of_pos {number : Float} {value : ℚ} (held : Held number value) (positive : 0 < value) :
    ∃ size, ∃ stored : Dyadic.Stored size, number = stored.toFloat .positive ∧ size.value = value := by
  cases held with
  | zero => exact absurd positive (lt_irrefl _)
  | @stored size stored sign =>
    cases sign with
    | positive => exact ⟨size, stored, rfl, rfl⟩
    | negative => exact absurd positive (neg_nonpos.2 size.value_nonneg).not_gt

theorem held_powerOfTen (places : Fin 23) : ∃ size, ∃ stored : Dyadic.Stored size,
    Float.exactlyRepresentablePowersOfTen[places] = stored.toFloat .positive ∧ size.value = 10 ^ places.val :=
  (held_of_value? (value?_powerOfTen places)).of_pos (by positivity)

/-- Digits with an exponent within this bound are not taken for zero or an infinity at once. -/
theorem exponentBits_eq : (2 : Int) ^ binary64.exponentBits = 2048 := rfl

theorem ofScientific_natural (stored : size.Stored) (same : (digits : ℚ) = size.value) :
    Float.ofScientific digits false 0 = stored.toFloat .positive := by
  have some : 0 < digits := by exact_mod_cast same ▸ Dyadic.value_pos stored.positive
  by_cases small : digits < 2 ^ 53
  · have normal := Dyadic.normal_whole some small
    have found : Dyadic.whole digits = size :=
      normal.stored.toCanonical.unique stored.toCanonical ((Dyadic.value_whole digits).trans same)
    rw [ofScientific_whole some small]
    subst found
    rfl
  · -- so many digits are shifted up by 53 places and then multiplied by the power of ten, which is one
    have above : -53 ≤ size.exponent := stored.exponent_of_one_le (same ▸ by exact_mod_cast some)
    have longer : Dyadic.value ⟨digits <<< 53, -53⟩ = Dyadic.value ⟨digits, 0⟩ :=
      (Dyadic.value_eq_iff (neg_nonpos.2 (by decide))).2 (Nat.shiftLeft_eq _ _)
    have product : Dyadic.value ⟨digits <<< 53, -53⟩ * Dyadic.value ⟨1, 0⟩ = size.value := by
      rw [longer, Dyadic.value_natural, Dyadic.value_natural, same, Nat.cast_one, mul_one]
    unfold Float.ofScientific
    rw [dif_neg (small ∘ And.left)]
    change Float.ofModel (Float.Model.pack (UnpackedFloat.ofScientific binary64 digits 0)) = _
    unfold UnpackedFloat.ofScientific
    rw [exponentBits_eq, dif_neg some.ne', if_neg (by decide), if_neg (by omega), if_pos (by decide)]
    exact stored.ofModel_pack
      (stored.mul_eq (Nat.shiftLeft_pos_iff.2 some) Nat.one_pos (by exact above) product .positive .positive)

/-- So is a number with digits behind the point. With few of them two doubles are divided, and otherwise two whole
numbers. -/
theorem ofScientific_places (stored : size.Stored) (few : places ≤ 1074) (behind : 0 < places)
    (same : (digits : ℚ) = size.value * 10 ^ places) :
    Float.ofScientific digits true places = stored.toFloat .positive := by
  have some : 0 < digits := by
    exact_mod_cast same ▸ mul_pos (Dyadic.value_pos stored.positive) (by positivity : (0 : ℚ) < 10 ^ places)
  unfold Float.ofScientific
  split
  · rename_i fast
    have stored' := (Dyadic.normal_whole some fast.1).stored
    obtain ⟨power, powerStored, found, ten⟩ := held_powerOfTen ⟨places, by omega⟩
    have quotient : (Dyadic.whole digits).value = size.value * power.value := by
      rw [Dyadic.value_whole, ten, same]
    change Float.ofModel (Float.Model.pack (UnpackedFloat.div binary64 digits.toUInt64.toFloat.toModel.unpack
      (Float.exactlyRepresentablePowersOfTen[(⟨places, by omega⟩ : Fin 23)]).toModel.unpack)) = _
    rw [toFloat_toUInt64 some fast.1, found, stored'.unpack_pack, powerStored.unpack_pack]
    exact stored.ofModel_pack (stored.div_eq stored'.positive powerStored.positive quotient .positive .positive)
  · have power : Dyadic.value ⟨10 ^ places, 0⟩ = 10 ^ places := by
      rw [Dyadic.value_natural]
      push_cast
      rfl
    have quotient : Dyadic.value ⟨digits, 0⟩ = size.value * Dyadic.value ⟨10 ^ places, 0⟩ := by
      rw [Dyadic.value_natural, power, same]
    change Float.ofModel (Float.Model.pack (UnpackedFloat.ofScientific binary64 digits (Int.negOfNat places))) = _
    rw [Int.negOfNat_eq, Int.ofNat_eq_natCast]
    unfold UnpackedFloat.ofScientific
    rw [exponentBits_eq, dif_neg some.ne', if_neg (by omega), if_neg (by omega), if_neg (by omega)]
    simp only [neg_neg, Int.toNat_natCast]
    exact stored.ofModel_pack (stored.div_eq some (Nat.pow_pos (by decide)) quotient .positive .positive)

theorem held_ofScientific_zero (behind : Bool) (places : Nat) : Held (Float.ofScientific 0 behind places) 0 := by
  unfold Float.ofScientific
  split
  · rename_i fast
    obtain ⟨power, powerStored, found, -⟩ := held_powerOfTen ⟨places, by omega⟩
    have zero : (Nat.toUInt64 0).toFloat.toModel.unpack = .zero .positive := rfl
    cases behind with
    | true =>
      change Held ⟨Float.Model.pack (UnpackedFloat.div binary64 (Nat.toUInt64 0).toFloat.toModel.unpack
        (Float.exactlyRepresentablePowersOfTen[(⟨places, by omega⟩ : Fin 23)]).toModel.unpack)⟩ 0
      rw [zero, found, powerStored.unpack_pack]
      exact .zero .positive
    | false =>
      change Held ⟨Float.Model.pack (UnpackedFloat.mul binary64 (Nat.toUInt64 0).toFloat.toModel.unpack
        (Float.exactlyRepresentablePowersOfTen[(⟨places, by omega⟩ : Fin 23)]).toModel.unpack)⟩ 0
      rw [zero, found, powerStored.unpack_pack]
      exact .zero .positive
  · exact .zero .positive

/-- The double of a magnitude is that magnitude, if it needs no more than 53 places. -/
theorem held_toFloat (few : size.significand < 2 ^ 53) (low : -1074 ≤ size.exponent) (high : size.exponent ≤ 971) :
    Held size.toFloat size.value := by
  unfold Dyadic.toFloat
  rcases Nat.eq_zero_or_pos size.significand with none | some
  · rw [Dyadic.value_eq_zero none, none, Nat.zero_mul]
    split
    · exact held_ofScientific_zero _ _
    · dsimp only
      rw [Nat.zero_mul]
      exact held_ofScientific_zero _ _
  · obtain ⟨size', stored, same⟩ := Dyadic.exists_stored some few low high
    rw [← same]
    split
    · rename_i above
      rw [ofScientific_natural stored]
      · exact .stored stored .positive
      · rw [same, Dyadic.value_of_nonneg above]
        rfl
    · rename_i below
      dsimp only
      rw [ofScientific_places stored (by omega) (by omega)]
      · exact .stored stored .positive
      · -- five times two is the ten that is divided by
        have unit : (2 : ℚ) ^ (-size.exponent).toNat ≠ 0 := pow_ne_zero _ (by norm_num)
        rw [same, Dyadic.value_of_neg (by omega), Nat.pow_eq]
        push_cast
        rw [div_mul_eq_mul_div, eq_div_iff unit, mul_assoc, ← mul_pow]
        norm_num

end Number

end TabScript
