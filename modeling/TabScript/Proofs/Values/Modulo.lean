import TabScript.Proofs.Numbers.Remainder
import TabScript.Proofs.Values.Declined

/-! The operator that takes a modulo.

It gives the floored remainder of two numbers. Only it and division can fail for a divisor that is zero. -/

set_option autoImplicit false

namespace TabScript

namespace Number

theorem value?_zero : value? (0.0 : Float) = some 0 :=
  toInt?_eq_some_iff.1 (by decide +kernel : toInt? 0.0 = some 0)

theorem beq_zero_iff {number : Float} : (number == 0.0) = true ↔ value? number = some 0 := by
  refine ⟨fun same => ?_, fun known => beq_of_value?_eq known value?_zero⟩
  obtain ⟨-, -, rfl | ⟨rfl, -⟩ | ⟨rfl, -⟩⟩ := Float.beq_iff_ne_nan_and_eq.1 same
  · exact value?_zero
  · exact toInt?_eq_some_iff.1 (by decide +kernel : toInt? 0 = some 0)
  · exact toInt?_eq_some_iff.1 (by decide +kernel : toInt? (-0) = some 0)

end Number

namespace Value

open Operator
open Number (value? truncated floored remainder IsFloored)

variable {heap : Heap} {operator : Operator} {left right : Value}

theorem divideByZero_iff :
    (∃ fault, binary heap operator left right = .error fault ∧ fault.kind = .divideByZero) ↔
      (operator = divide ∨ operator = modulo) ∧
        ∃ first second, left = number first ∧ right = number second ∧ value? second = some 0 := by
  constructor
  · rintro ⟨fault, failed, kind⟩
    cases declined_binary failed with
    | operator | operand => cases kind
    | divisor zero => exact ⟨.inl rfl, _, _, rfl, rfl, Number.beq_zero_iff.1 zero⟩
    | modulus zero => exact ⟨.inr rfl, _, _, rfl, rfl, Number.beq_zero_iff.1 zero⟩
  · rintro ⟨divides, first, second, rfl, rfl, zero⟩
    have same := Number.beq_zero_iff.2 zero
    rcases divides with rfl | rfl
    · exact ⟨.zeroDivisor, if_pos same, rfl⟩
    · exact ⟨.zeroModulus, if_pos same, rfl⟩

theorem binary_modulo {first second : Float} (nonzero : value? second ≠ some 0) :
    binary heap modulo (number first) (number second) = simply (number (floored remainder first second)) :=
  if_neg (nonzero ∘ Number.beq_zero_iff.1)

/-- In exact arithmetic the modulo of a number by any other than zero is the floored remainder. The operator takes the
same steps with doubles. Its remainders are exact, and so is its result if the sum in the middle is a double. By zero
it fails, as division does, and no operator fails for this reason otherwise. -/
theorem modulo_floors (heap : Heap) :
    (∀ a b : ℚ, b ≠ 0 → IsFloored a b (floored truncated a b)) ∧
    (∀ first second : Float, value? second ≠ some 0 →
      binary heap modulo (number first) (number second) = simply (number (floored remainder first second)) ∧
      ∀ a b : ℚ, value? first = some a → value? second = some b →
        value? (remainder first second) = some (truncated a b) ∧
        ∀ sum : Float, value? sum = some (truncated a b + b) →
          value? (floored remainder first second) = some (floored truncated a b)) ∧
    ∀ (operator : Operator) (left right : Value),
      (∃ fault, binary heap operator left right = .error fault ∧ fault.kind = .divideByZero) ↔
        (operator = divide ∨ operator = modulo) ∧
          ∃ first second, left = number first ∧ right = number second ∧ value? second = some 0 := by
  refine ⟨fun a b nonzero => ?_, fun first second nonzero => ⟨binary_modulo nonzero, ?_⟩,
    fun _ _ _ => divideByZero_iff⟩
  · rw [Number.floored_truncated nonzero]
    exact Number.isFloored_sub_floor a b
  · rintro a b left right
    have other : b ≠ 0 := by
      rintro rfl
      exact nonzero right
    exact ⟨Number.value?_remainder left right other, fun sum => Number.value?_modulo left right other⟩

/-- Seven and a half below zero is half above a multiple of two. -/
theorem modulo_floors_across_zero :
    (2 : ℚ) ≠ 0 ∧ IsFloored (-15 / 2) 2 (floored truncated (-15 / 2) 2) ∧
    value? 2.0 ≠ some 0 ∧ value? (-7.5) = some (-15 / 2) ∧ value? 2.0 = some 2 ∧
      value? 0.5 = some (truncated (-15 / 2) 2 + 2) ∧
    binary .empty modulo (number (-7.5)) (number 2.0) = simply (number (floored remainder (-7.5) 2.0)) ∧
      value? (remainder (-7.5) 2.0) = some (-3 / 2) ∧ value? (floored remainder (-7.5) 2.0) = some (1 / 2) ∧
    ∃ fault, binary .empty modulo (number (-7.5)) (number (-0.0)) = .error fault ∧ fault.kind = .divideByZero := by
  have ⟨rational, doubles, fails⟩ := modulo_floors .empty
  have divisor : value? 2.0 = some 2 := by decide +kernel
  have nonzero : value? 2.0 ≠ some 0 := by decide +kernel
  have dividend : value? (-7.5) = some (-15 / 2) := by decide +kernel
  have sum : value? 0.5 = some (truncated (-15 / 2) 2 + 2) := by decide +kernel
  have rest : truncated (-15 / 2) 2 = -3 / 2 := by decide +kernel
  have result : floored truncated (-15 / 2) 2 = 1 / 2 := by decide +kernel
  obtain ⟨computed, whole⟩ := doubles (-7.5) 2.0 nonzero
  obtain ⟨remains, halves⟩ := whole _ _ dividend divisor
  exact ⟨by decide, rational _ _ (by decide), nonzero, dividend, divisor, sum, computed, rest ▸ remains,
    result ▸ halves 0.5 sum, (fails modulo _ _).2 ⟨.inr rfl, _, _, rfl, rfl, by decide +kernel⟩⟩

end Value

end TabScript
