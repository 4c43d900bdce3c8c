import Mathlib.Algebra.Order.Field.Rat
import Mathlib.Tactic.FieldSimp
import Mathlib.Tactic.NormNum
import TabScript.Number.Binary

/-! The exact values of doubles.

A finite double is a rational number. Whether it is whole, and which integer it is then, is read off its sign,
its significand and its exponent, and nothing is rounded on the way. -/

set_option autoImplicit false

namespace TabScript

namespace Dyadic

variable {number : Dyadic} {whole : Nat}

def value (number : Dyadic) : ℚ := number.significand * 2 ^ number.exponent

theorem value_nonneg (number : Dyadic) : 0 ≤ number.value :=
  mul_nonneg (Nat.cast_nonneg _) (zpow_nonneg (by norm_num) _)

theorem value_of_nonneg (exponent : 0 ≤ number.exponent) :
    number.value = (number.significand * 2 ^ number.exponent.toNat : Nat) := by
  rw [value, ← Int.toNat_of_nonneg exponent, zpow_natCast, Int.toNat_natCast]
  push_cast
  rfl

theorem value_of_neg (exponent : number.exponent < 0) :
    number.value = number.significand / (2 ^ (-number.exponent).toNat : Nat) := by
  have opposite : number.exponent = -((-number.exponent).toNat : Int) := by omega
  rw [value, opposite, zpow_neg, zpow_natCast, neg_neg, Int.toNat_natCast, div_eq_mul_inv]
  push_cast
  rfl

theorem toNat?_eq_some_iff : number.toNat? = some whole ↔ number.value = whole := by
  unfold toNat?
  split
  · rename_i exponent
    rw [value_of_nonneg exponent, Nat.cast_inj, Option.some.injEq]
    rfl
  · rename_i exponent
    have unit : (((2 ^ (-number.exponent).toNat : Nat) : ℚ)) ≠ 0 :=
      Nat.cast_ne_zero.2 (Nat.pow_pos (by decide)).ne'
    rw [value_of_neg (by omega), div_eq_iff unit, ← Nat.cast_mul, Nat.cast_inj]
    -- the significand is a multiple of the unit just if the number is whole
    change (if number.significand % 2 ^ (-number.exponent).toNat = 0 then
      some (number.significand / 2 ^ (-number.exponent).toNat) else none) = some whole ↔ _
    have positive : 0 < 2 ^ (-number.exponent).toNat := Nat.pow_pos (by decide)
    generalize 2 ^ (-number.exponent).toNat = unit at positive
    constructor
    · intro found
      split at found
      · rename_i divides
        cases found
        exact (Nat.div_mul_cancel (Nat.dvd_of_mod_eq_zero divides)).symm
      · cases found
    · intro same
      rw [same, Nat.mul_mod_left, if_pos rfl, Nat.mul_div_cancel _ positive]

end Dyadic

namespace Magnitude

variable {magnitude : Magnitude} {whole : Int}

def value? : Magnitude → Option ℚ
  | finite negative size => some (if negative then -size.value else size.value)
  | _ => none

theorem toInt?_finite (negative : Bool) (size : Dyadic) : (finite negative size).toInt? =
    size.toNat?.map fun (whole : Nat) => (if negative then -whole else whole : Int) := by
  rw [toInt?]
  cases size.toNat? <;> rfl

theorem toInt?_eq_some_iff : magnitude.toInt? = some whole ↔ magnitude.value? = some (whole : ℚ) := by
  cases magnitude with
  | notANumber | infinite => simp [toInt?, value?]
  | finite negative size =>
    rw [toInt?_finite, value?, Option.map_eq_some_iff, Option.some.injEq]
    have positive := size.value_nonneg
    constructor
    · rintro ⟨found, same, rfl⟩
      rw [Dyadic.toNat?_eq_some_iff.1 same]
      cases negative <;> simp
    · intro same
      cases negative with
      | false =>
        have size_eq : size.value = whole := same
        rw [size_eq, Int.cast_nonneg_iff] at positive
        lift whole to Nat using positive
        exact ⟨whole, Dyadic.toNat?_eq_some_iff.2 (by simpa using size_eq), rfl⟩
      | true =>
        have size_eq : size.value = ((-whole : Int) : ℚ) := by
          rw [Int.cast_neg, ← same]
          simp
        rw [size_eq, Int.cast_nonneg_iff] at positive
        obtain ⟨found, opposite⟩ := Int.eq_ofNat_of_zero_le positive
        refine ⟨found, Dyadic.toNat?_eq_some_iff.2 ?_, ?_⟩
        · rw [size_eq, opposite]
          simp
        · simp only [if_true]
          omega

end Magnitude

namespace Number

/-- The rational number that a double is, if it is finite. -/
def value? (number : Float) : Option ℚ := (Magnitude.ofFloat number).value?

theorem toInt?_eq_some_iff {number : Float} {whole : Int} :
    toInt? number = some whole ↔ value? number = some (whole : ℚ) :=
  Magnitude.toInt?_eq_some_iff

end Number

end TabScript
