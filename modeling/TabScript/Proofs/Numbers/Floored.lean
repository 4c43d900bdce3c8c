import Mathlib.Algebra.Order.Field.Rat
import Mathlib.Algebra.Order.Floor.Ring
import Mathlib.Data.Rat.Floor
import Mathlib.Tactic.FieldSimp
import Mathlib.Tactic.Linarith
import TabScript.Number.Remainder

/-! The modulo in exact arithmetic.

A division whose quotient is rounded toward zero leaves a remainder on the side of the dividend. When the divisor is
added to it and the sum divided once more, the quotient is rounded down, on either side of zero, and the remainder is
on the side of the divisor. -/

set_option autoImplicit false

namespace TabScript.Number

variable {dividend divisor : ℚ}

def towardZero (number : ℚ) : ℤ := if 0 ≤ number then ⌊number⌋ else ⌈number⌉

def truncated (dividend divisor : ℚ) : ℚ := dividend - divisor * towardZero (dividend / divisor)

/-- The remainder of floored division: what it is, where it lies and that the rest of the dividend is made of whole
divisors. -/
structure IsFloored (dividend divisor rest : ℚ) : Prop where
  eq_floor : rest = dividend - divisor * ⌊dividend / divisor⌋
  of_pos : 0 < divisor → 0 ≤ rest ∧ rest < divisor
  of_neg : divisor < 0 → divisor < rest ∧ rest ≤ 0
  multiple : ∃ count : ℤ, dividend - rest = count * divisor

theorem towardZero_of_nonneg {number : ℚ} (nonneg : 0 ≤ number) : towardZero number = ⌊number⌋ := if_pos nonneg

theorem towardZero_neg (number : ℚ) : towardZero (-number) = -towardZero number := by
  unfold towardZero
  rcases lt_trichotomy number 0 with negative | rfl | positive
  · rw [if_pos (neg_nonneg.2 negative.le), if_neg negative.not_ge, Int.floor_neg]
  · simp
  · rw [if_neg (neg_neg_of_pos positive).not_ge, if_pos positive.le, Int.ceil_neg]

/-- What the whole part leaves is less than one, on either side. -/
theorem abs_sub_towardZero_lt (number : ℚ) : |number - towardZero number| < 1 := by
  rw [abs_lt]
  unfold towardZero
  split
  · have := Int.floor_le number
    have := Int.lt_floor_add_one number
    constructor <;> linarith
  · have := Int.le_ceil number
    have := Int.ceil_lt_add_one number
    constructor <;> linarith

theorem truncated_neg_left (dividend divisor : ℚ) : truncated (-dividend) divisor = -truncated dividend divisor := by
  rw [truncated, truncated, neg_div, towardZero_neg, Int.cast_neg]
  ring

theorem truncated_neg_right (dividend divisor : ℚ) : truncated dividend (-divisor) = truncated dividend divisor := by
  rw [truncated, truncated, div_neg, towardZero_neg, Int.cast_neg, neg_mul_neg]

theorem truncated_of_nonneg (first : 0 ≤ dividend) (second : 0 ≤ divisor) :
    truncated dividend divisor = dividend - divisor * ⌊dividend / divisor⌋ := by
  rw [truncated, towardZero_of_nonneg (div_nonneg first second)]

theorem truncated_div (nonzero : divisor ≠ 0) :
    truncated dividend divisor / divisor = dividend / divisor - towardZero (dividend / divisor) := by
  rw [truncated, sub_div, mul_div_cancel_left₀ _ nonzero]

theorem abs_truncated_lt (nonzero : divisor ≠ 0) : |truncated dividend divisor| < |divisor| := by
  rw [← div_lt_one (abs_pos.2 nonzero), ← abs_div, truncated_div nonzero]
  exact abs_sub_towardZero_lt _

theorem floored_truncated (nonzero : divisor ≠ 0) :
    floored truncated dividend divisor = dividend - divisor * ⌊dividend / divisor⌋ := by
  have quotient : (truncated dividend divisor + divisor) / divisor =
      dividend / divisor - towardZero (dividend / divisor) + 1 := by
    rw [add_div, truncated_div nonzero, div_self nonzero]
  have nonneg : 0 ≤ dividend / divisor - towardZero (dividend / divisor) + 1 := by
    have := (abs_lt.1 (abs_sub_towardZero_lt (dividend / divisor))).1
    linarith
  have whole : ⌊dividend / divisor - towardZero (dividend / divisor) + 1⌋ =
      ⌊dividend / divisor⌋ - towardZero (dividend / divisor) + 1 := by
    rw [Int.floor_add_one, Int.floor_sub_intCast]
  calc floored truncated dividend divisor
      = truncated dividend divisor + divisor - divisor *
          (⌊dividend / divisor⌋ - towardZero (dividend / divisor) + 1 : ℤ) := by
        rw [floored, truncated.eq_def (_ + _), quotient, towardZero_of_nonneg nonneg, whole]
    _ = dividend - divisor * ⌊dividend / divisor⌋ := by
        rw [truncated]
        push_cast
        ring

theorem isFloored_sub_floor (dividend divisor : ℚ) :
    IsFloored dividend divisor (dividend - divisor * ⌊dividend / divisor⌋) where
  eq_floor := rfl
  of_pos positive := by
    rw [mul_comm]
    exact ⟨Int.sub_floor_div_mul_nonneg dividend positive, Int.sub_floor_div_mul_lt dividend positive⟩
  of_neg negative := by
    have low := (le_div_iff_of_neg negative).1 (Int.floor_le (dividend / divisor))
    have high := (div_lt_iff_of_neg negative).1 (Int.lt_floor_add_one (dividend / divisor))
    constructor <;> linarith
  multiple := ⟨⌊dividend / divisor⌋, by rw [sub_sub_cancel, mul_comm]⟩

end TabScript.Number
