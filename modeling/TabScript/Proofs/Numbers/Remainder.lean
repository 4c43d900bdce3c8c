import TabScript.Proofs.Numbers.Floored
import TabScript.Proofs.Numbers.Scaled

/-! The modulo of doubles.

The remainder of two doubles is not rounded, and so the modulo is exact wherever the sum in its middle is a double. -/

set_option autoImplicit false

namespace TabScript.Number

variable {dividend divisor sum : Float} {first second : Dyadic} {x y : ℚ}

/-! The remainder of magnitudes. -/

theorem value_sizeRemainder (first second : Dyadic) :
    (sizeRemainder first second).value = first.value - second.value * ⌊first.value / second.value⌋ := by
  generalize unit_eq : min first.exponent second.exponent = unit
  have left : Dyadic.value ⟨first.significand * 2 ^ (first.exponent - unit).toNat, unit⟩ = first.value :=
    (Dyadic.value_eq_iff (unit_eq ▸ min_le_left _ _)).2 rfl
  have right : Dyadic.value ⟨second.significand * 2 ^ (second.exponent - unit).toNat, unit⟩ = second.value :=
    (Dyadic.value_eq_iff (unit_eq ▸ min_le_right _ _)).2 rfl
  have nonzero : (2 : ℚ) ^ unit ≠ 0 := zpow_ne_zero _ (by norm_num)
  rw [sizeRemainder, unit_eq, ← left, ← right]
  simp only [Nat.pow_eq]
  generalize first.significand * 2 ^ (first.exponent - unit).toNat = count
  generalize second.significand * 2 ^ (second.exponent - unit).toNat = count'
  -- both are counted in the same unit, so that the quotient is one of counts
  have whole : ((count % count' : Nat) : ℚ) = count - count' * ((count / count' : Nat) : ℚ) := by
    rw [eq_sub_iff_add_eq]
    exact_mod_cast Nat.mod_add_div count count'
  rw [Dyadic.value, Dyadic.value, Dyadic.value, mul_div_mul_right _ _ nonzero, Rat.floor_natCast_div_natCast, whole,
    ← Int.natCast_div, Int.cast_natCast]
  ring

theorem sizeRemainder_small (some : 0 < second.significand) (few : first.significand < 2 ^ 53)
    (few' : second.significand < 2 ^ 53) : (sizeRemainder first second).significand < 2 ^ 53 := by
  rw [sizeRemainder]
  dsimp only [Nat.pow_eq]
  rcases le_total first.exponent second.exponent with below | above
  · rw [min_eq_left below, Int.sub_self, Int.toNat_zero, pow_zero, Nat.mul_one]
    exact (Nat.mod_le _ _).trans_lt few
  · rw [min_eq_right above, Int.sub_self, Int.toNat_zero, pow_zero, Nat.mul_one]
    exact (Nat.mod_lt _ some).trans few'

/-- Both are whole multiples of one unit, so that the remainder needs no more places than they do. -/
theorem held_sizeRemainder {negative negative' : Bool} (left : Magnitude.ofFloat dividend = .finite negative first)
    (right : Magnitude.ofFloat divisor = .finite negative' second) (some : 0 < second.significand) :
    Held (sizeRemainder first second).toFloat (sizeRemainder first second).value := by
  have canonical := Magnitude.canonical_ofFloat left
  have canonical' := Magnitude.canonical_ofFloat right
  have low : -1074 ≤ (sizeRemainder first second).exponent := le_min canonical.low canonical'.low
  have high : (sizeRemainder first second).exponent ≤ 971 := (min_le_left _ _).trans (Magnitude.exponent_le left)
  exact held_toFloat (sizeRemainder_small some canonical.small canonical'.small) low high

/-! The remainder of doubles. -/

theorem value?_remainder (left : value? dividend = some x) (right : value? divisor = some y) (nonzero : y ≠ 0) :
    value? (remainder dividend divisor) = some (truncated x y) := by
  obtain ⟨negative, first, finite, rfl⟩ := finite_of_value? left
  obtain ⟨negative', second, finite', rfl⟩ := finite_of_value? right
  have some : 0 < second.significand := by
    refine Nat.pos_of_ne_zero fun none => nonzero ?_
    rw [Dyadic.value_eq_zero none, neg_zero, ite_self]
  rw [remainder, finite, finite']
  dsimp only
  -- the remainder of the magnitudes takes the sign of the dividend, and the sign of the divisor is of no account
  rw [if_neg some.ne', value?_signed negative (held_sizeRemainder finite finite' some).value?, value_sizeRemainder]
  have size : truncated first.value second.value = first.value - second.value * ⌊first.value / second.value⌋ :=
    truncated_of_nonneg first.value_nonneg second.value_nonneg
  cases negative <;> cases negative' <;> simp [truncated_neg_left, truncated_neg_right, size]

theorem value?_modulo (left : value? dividend = some x) (right : value? divisor = some y) (nonzero : y ≠ 0)
    (fits : value? sum = some (truncated x y + y)) :
    value? (modulo dividend divisor) = some (floored truncated x y) := by
  have added : Held (remainder dividend divisor + divisor) (truncated x y + y) :=
    (held_of_value? (value?_remainder left right nonzero)).add (held_of_value? right) (held_of_value? fits)
  exact value?_remainder added.value? right nonzero

/-! Whole numbers. -/

section
variable {first second : Int}

theorem floor_div_eq_fdiv (first second : Int) : ⌊(first : ℚ) / second⌋ = first.fdiv second := by
  obtain ⟨count, rfl | rfl⟩ := second.eq_nat_or_neg
  · rw [Int.cast_natCast, Rat.floor_intCast_div_natCast, Int.fdiv_eq_ediv_of_nonneg _ (Int.natCast_nonneg count)]
  · rw [Int.cast_neg, Int.cast_natCast, div_neg, ← neg_div, ← Int.cast_neg, Rat.floor_intCast_div_natCast,
      ← Int.neg_fdiv_neg, neg_neg, Int.fdiv_eq_ediv_of_nonneg _ (Int.natCast_nonneg count)]

theorem floored_whole (nonzero : second ≠ 0) : floored truncated (first : ℚ) second = (first.fmod second : Int) := by
  rw [floored_truncated (Int.cast_ne_zero.2 nonzero), floor_div_eq_fdiv, Int.fmod_def]
  push_cast
  rfl

theorem truncated_whole (first : Int) (nonzero : second ≠ 0) :
    ∃ rest : Int, rest.natAbs < second.natAbs ∧ truncated (first : ℚ) second = rest := by
  have same : truncated (first : ℚ) second = (first - second * towardZero (first / second) : Int) := by
    rw [truncated]
    push_cast
    rfl
  have less : |truncated (first : ℚ) second| < |(second : ℚ)| :=
    abs_truncated_lt (Int.cast_ne_zero.2 nonzero)
  rw [same, ← Int.cast_abs, ← Int.cast_abs, Int.cast_lt, Int.abs_eq_natAbs, Int.abs_eq_natAbs,
    Int.ofNat_lt] at less
  exact ⟨_, less, same⟩

theorem toInt?_modulo (left : toInt? dividend = some first) (right : toInt? divisor = some second)
    (nonzero : second ≠ 0) (moderate : second.natAbs ≤ 2 ^ 52) :
    toInt? (modulo dividend divisor) = some (first.fmod second) := by
  obtain ⟨rest, less, same⟩ := truncated_whole first nonzero
  have fits : value? (ofInt (rest + second)) = some (truncated (first : ℚ) second + second) := by
    rw [value?_ofInt (by omega), same, Int.cast_add]
  rw [toInt?_eq_some_iff, ← floored_whole nonzero]
  exact value?_modulo (toInt?_eq_some_iff.1 left) (toInt?_eq_some_iff.1 right) (Int.cast_ne_zero.2 nonzero) fits

example : toInt? (modulo (-5) 3) = some 1 := by decide +kernel

end

end TabScript.Number
