import TabScript.Proofs.Numbers.Stored

/-! Exact arithmetic.

Where the exact result of an operation is a double, the operation on doubles gives it. -/

set_option autoImplicit false

namespace TabScript

open Float.Model (UnpackedFloat)
open Float.Model.Format (binary64)
open Float.Model.UnpackedFloat (Sign)

namespace Dyadic

variable {size : Dyadic}

def signedValue (size : Dyadic) : Sign → ℚ
  | .positive => size.value
  | .negative => -size.value

theorem signedValue_neg (size : Dyadic) (sign : Sign) : size.signedValue (-sign) = -size.signedValue sign := by
  cases sign
  · exact (neg_neg _).symm
  · rfl

theorem signedValue_eq (size : Dyadic) (sign : Sign) :
    size.signedValue sign = (sign.apply size.significand : Int) * 2 ^ size.exponent := by
  cases sign with
  | positive => rfl
  | negative =>
    rw [signedValue, value, Sign.apply, Int.cast_neg, Int.cast_natCast, neg_mul]

theorem Stored.value?_toFloat (stored : size.Stored) (sign : Sign) :
    Number.value? (stored.toFloat sign) = some (size.signedValue sign) := by
  rw [Number.value?, stored.ofFloat_toFloat]
  cases sign <;> rfl

theorem Stored.neg_toFloat (stored : size.Stored) (sign : Sign) : -stored.toFloat sign = stored.toFloat (-sign) := by
  change Float.ofModel (Float.Model.pack (UnpackedFloat.neg (stored.toFloat sign).toModel.unpack)) = _
  rw [stored.unpack_pack]
  rfl

/-! Products and quotients. -/

variable {first second dividend divisor : Dyadic}

theorem value_mul (first second : Dyadic) :
    value ⟨first.significand * second.significand, first.exponent + second.exponent⟩ =
      first.value * second.value := by
  rw [value, value, value, zpow_add₀ (by norm_num), Nat.cast_mul]
  ring

theorem Stored.mul_eq (stored : size.Stored) (some : 0 < first.significand) (some' : 0 < second.significand)
    (below : first.exponent + second.exponent ≤ size.exponent) (same : first.value * second.value = size.value)
    (sign sign' : Sign) :
    UnpackedFloat.mul binary64 (.finite sign first.significand first.exponent some)
      (.finite sign' second.significand second.exponent some') = stored.unpacked (sign * sign') :=
  stored.roundWithAccuracy_eq (sign * sign') below ((value_mul first second).trans same)

/-- A quotient begins where the difference of the two first places tells, or one place higher. Only the one bound is
needed, for the places that the division works out to be enough. -/
theorem place_sub_le (some : 0 < dividend.significand) (some' : 0 < divisor.significand)
    (same : dividend.value = size.value * divisor.value) : dividend.place - divisor.place ≤ size.place := by
  have least : (2 : ℚ) ^ (dividend.place - 1) < 2 ^ (size.place + divisor.place) :=
    calc (2 : ℚ) ^ (dividend.place - 1) ≤ size.value * divisor.value := same ▸ le_value some
      _ < 2 ^ size.place * 2 ^ divisor.place :=
        mul_lt_mul_of_pos' size.value_lt divisor.value_lt (value_pos some') (zpow_pos (by norm_num) _)
      _ = 2 ^ (size.place + divisor.place) := (zpow_add₀ (by norm_num) _ _).symm
  have := (zpow_lt_zpow_iff_right₀ (by norm_num)).1 least
  omega

theorem shiftLeft_eq_mul {target : Int} (below : target ≤ size.exponent)
    (least : target ≤ dividend.exponent - divisor.exponent) (same : dividend.value = size.value * divisor.value) :
    dividend.significand <<< (dividend.exponent - divisor.exponent - target).toNat =
      size.significand * 2 ^ (size.exponent - target).toNat * divisor.significand := by
  have longer : value ⟨dividend.significand * 2 ^ (dividend.exponent - divisor.exponent - target).toNat,
      target + divisor.exponent⟩ = dividend.value := by
    rw [value_eq_iff (by omega)]
    congr 3
    omega
  have product : value ⟨size.significand * divisor.significand, size.exponent + divisor.exponent⟩ =
      dividend.value := (value_mul size divisor).trans same.symm
  rw [Nat.shiftLeft_eq, (value_eq_iff (by dsimp only; omega)).1 (longer.trans product.symm), mul_right_comm]
  dsimp only
  congr 3
  omega

/-- The division leaves no rest, and rounding cuts nothing but zeros. -/
theorem Stored.div_eq (stored : size.Stored) (some : 0 < dividend.significand) (some' : 0 < divisor.significand)
    (same : dividend.value = size.value * divisor.value) (sign sign' : Sign) :
    UnpackedFloat.div binary64 (.finite sign dividend.significand dividend.exponent some)
      (.finite sign' divisor.significand divisor.exponent some') = stored.unpacked (sign / sign') := by
  rw [UnpackedFloat.div, UnpackedFloat.divCore]
  generalize bound : min (dividend.exponent - divisor.exponent) (binary64.targetExponent
    (Float.Model.totalExponent dividend.significand dividend.exponent -
      Float.Model.totalExponent divisor.significand divisor.exponent)) = target
  have least : target ≤ dividend.exponent - divisor.exponent := bound ▸ min_le_left _ _
  have below : target ≤ size.exponent := by
    refine bound ▸ (min_le_right _ _).trans (max_le ?_ stored.low)
    have first := place_sub_le some some' same
    have last := stored.place_le
    change dividend.place - divisor.place - ((53 : Nat) : Int) ≤ _
    omega
  dsimp only
  rw [shiftLeft_eq_mul below least same, Nat.mul_div_cancel _ some', Nat.mul_mod_left]
  exact stored.roundWithAccuracy_eq _ below ((value_eq_iff below).2 rfl)

end Dyadic

namespace Magnitude

variable {number : Float} {negative : Bool} {size : Dyadic}

theorem exponent_le (finite : ofFloat number = .finite negative size) : size.exponent ≤ 971 := by
  unfold ofFloat at finite
  dsimp only [Nat.pow_eq] at finite
  split at finite
  · cases finite
    dsimp only
    omega
  · split at finite
    · cases finite
      dsimp only
      omega
    · split at finite <;> cases finite

theorem stored_ofFloat (finite : ofFloat number = .finite negative size) (some : 0 < size.significand) :
    size.Stored :=
  { canonical_ofFloat finite with positive := some, high := exponent_le finite }

end Magnitude

namespace Number

variable {first second sum number : Float} {value : ℚ}

def signedZero (sign : Sign) : Float := ⟨Float.Model.pack (.zero sign)⟩

theorem unpack_signedZero (sign : Sign) : (signedZero sign).toModel.unpack = .zero sign := by cases sign <;> rfl

theorem ofFloat_signedZero (sign : Sign) :
    Magnitude.ofFloat (signedZero sign) = .finite (sign == .negative) ⟨0, -1074⟩ := by
  cases sign <;> decide +kernel

inductive Held : Float → ℚ → Prop where
  | zero (sign : Sign) : Held (signedZero sign) 0
  | stored {size : Dyadic} (stored : size.Stored) (sign : Sign) : Held (stored.toFloat sign) (size.signedValue sign)

theorem Held.value? (held : Held number value) : value? number = some value := by
  cases held with
  | zero sign =>
    rw [Number.value?, ofFloat_signedZero, Magnitude.value?, Dyadic.value, Nat.cast_zero, zero_mul, neg_zero, ite_self]
  | stored stored sign => exact stored.value?_toFloat sign

theorem held_of_value? (known : Number.value? number = some value) : Held number value := by
  obtain ⟨negative, size, finite, rfl⟩ := finite_of_value? known
  obtain ⟨sign, rfl⟩ : ∃ sign : Sign, negative = (sign == .negative) := by
    cases negative
    · exact ⟨.positive, rfl⟩
    · exact ⟨.negative, rfl⟩
  rcases Nat.eq_zero_or_pos size.significand with none | some
  · have nothing := Dyadic.value_eq_zero none
    rw [(Magnitude.canonical_ofFloat finite).eq_zero nothing] at finite
    rw [Magnitude.ofFloat_injective finite (ofFloat_signedZero sign), nothing, neg_zero, ite_self]
    exact .zero sign
  · have stored := Magnitude.stored_ofFloat finite some
    have signed : (if sign == .negative then -size.value else size.value) = size.signedValue sign := by
      cases sign <;> rfl
    rw [Magnitude.ofFloat_injective finite (stored.ofFloat_toFloat sign), signed]
    exact .stored stored sign

theorem Held.neg (held : Held number value) : Held (-number) (-value) := by
  cases held with
  | zero sign =>
    have opposite : -signedZero sign = signedZero (-sign) := by cases sign <;> decide +kernel
    rw [opposite, neg_zero]
    exact .zero _
  | stored stored sign =>
    rw [stored.neg_toFloat, ← Dyadic.signedValue_neg]
    exact .stored stored _

theorem value?_signed (negative : Bool) (known : Number.value? number = some value) :
    Number.value? (signed negative number) = some (if negative then -value else value) := by
  cases negative with
  | false => exact known
  | true => exact (held_of_value? known).neg.value?

/-! Sums and quotients. -/

theorem apply_apply (sign : Sign) (significand : Int) : sign.apply (sign.apply significand) = significand := by
  cases sign
  · exact neg_neg significand
  · rfl

theorem normalize_apply {significand : Nat} (some : 0 < significand) (sign : Sign) (exponent : Int) (otherwise : Sign) :
    UnpackedFloat.normalize binary64 (sign.apply significand) exponent otherwise =
      UnpackedFloat.round binary64 sign significand exponent := by
  cases sign with
  | positive =>
    have above : compare (significand : Int) 0 = .gt := Int.compare_eq_gt.2 (by omega)
    rw [Sign.apply, UnpackedFloat.normalize, above]
    rfl
  | negative =>
    have below : compare (-(significand : Int)) 0 = .lt := Int.compare_eq_lt.2 (by omega)
    rw [Sign.apply, UnpackedFloat.normalize, below]
    dsimp only
    rw [neg_neg, Int.toNat_natCast]

theorem Held.normalize {significand exponent : Int} (held : Held number (significand * 2 ^ exponent)) (sign : Sign) :
    Held ⟨Float.Model.pack (UnpackedFloat.normalize binary64 significand exponent sign)⟩
      (significand * 2 ^ exponent) := by
  have unit : (0 : ℚ) < 2 ^ exponent := zpow_pos (by norm_num) _
  generalize result : (significand : ℚ) * 2 ^ exponent = value at held ⊢
  cases held with
  | zero =>
    have none : significand = 0 := Int.cast_eq_zero.1 ((mul_eq_zero.1 result).resolve_right unit.ne')
    rw [none]
    exact .zero sign
  | @stored size stored sign' =>
    -- the significand has the sign of the double and counts the same units
    have size_eq : ((sign'.apply significand : Int) : ℚ) * 2 ^ exponent = size.value := by
      cases sign' with
      | positive => exact result
      | negative => rw [Sign.apply, Int.cast_neg, neg_mul, result, Dyadic.signedValue, neg_neg]
    have some : 0 < sign'.apply significand := by
      have positive := Dyadic.value_pos stored.positive
      rw [← size_eq] at positive
      exact_mod_cast pos_of_mul_pos_left positive unit.le
    obtain ⟨count, same⟩ := Int.eq_ofNat_of_zero_le some.le
    rw [same] at size_eq some
    rw [← apply_apply sign' significand, same, normalize_apply (by omega), stored.round_eq sign' size_eq]
    exact .stored stored sign'

theorem apply_decreaseExponent {significand : Nat} {exponent target : Int} (below : target ≤ exponent) (sign : Sign) :
    ((sign.apply (UnpackedFloat.decreaseExponent significand exponent target).1 : Int) : ℚ) * 2 ^ target =
      Dyadic.signedValue ⟨significand, exponent⟩ sign := by
  have same : Dyadic.value ⟨(UnpackedFloat.decreaseExponent significand exponent target).1, target⟩ =
      Dyadic.value ⟨significand, exponent⟩ := (Dyadic.value_eq_iff below).2 (Nat.shiftLeft_eq _ _)
  rw [← Dyadic.signedValue_eq ⟨_, target⟩]
  cases sign with
  | positive => exact same
  | negative => exact congrArg Neg.neg same

theorem Held.add {x y : ℚ} (left : Held first x) (right : Held second y) (fits : Held sum (x + y)) :
    Held (first + second) (x + y) := by
  change Held ⟨Float.Model.pack (UnpackedFloat.add binary64 first.toModel.unpack second.toModel.unpack)⟩ _
  cases left with
  | zero sign =>
    cases right with
    | zero sign' =>
      rw [unpack_signedZero, unpack_signedZero, add_zero]
      cases sign <;> cases sign' <;> exact .zero _
    | stored stored' sign' =>
      rw [unpack_signedZero, stored'.unpack_pack, zero_add]
      exact .stored stored' sign'
  | stored stored sign =>
    cases right with
    | zero sign' =>
      rw [unpack_signedZero, stored.unpack_pack, add_zero]
      exact .stored stored sign
    | stored stored' sign' =>
      -- both are written with the smaller exponent, and what is normalized has the value of the sum
      rw [stored.unpack_pack, stored'.unpack_pack]
      rw [← apply_decreaseExponent (min_le_left _ _) sign, ← apply_decreaseExponent (min_le_right _ _) sign',
        ← add_mul, ← Int.cast_add] at fits ⊢
      exact fits.normalize .positive

end Number

end TabScript
