import Mathlib
import TabScript.Proofs.Numbers.Exact

/-! Doubles that are the same number.

A double has one form for each rational number that it can be, but for zero, which has a sign. So doubles are
equal where they are the same number. -/

set_option autoImplicit false

namespace TabScript

namespace Dyadic

structure Canonical (number : Dyadic) : Prop where
  small : number.significand < 2 ^ 53
  low : -1074 ≤ number.exponent
  large : 2 ^ 52 ≤ number.significand ∨ number.exponent = -1074

variable {first second : Dyadic}

theorem Canonical.exponent_le (one : first.Canonical) (other : second.Canonical) (same : first.value = second.value) :
    second.exponent ≤ first.exponent := by
  refine Int.not_lt.1 fun less => ?_
  obtain ⟨places, shift⟩ := Int.eq_ofNat_of_zero_le (Int.sub_nonneg.2 less.le)
  have exponent : second.exponent = first.exponent + places := by omega
  have significand : first.significand = second.significand * 2 ^ places := by
    have unit : (2 : ℚ) ^ first.exponent ≠ 0 := zpow_ne_zero _ (by norm_num)
    have shifted : (first.significand : ℚ) = second.significand * 2 ^ places := by
      rw [value, value, exponent, zpow_add₀ (by norm_num), zpow_natCast] at same
      exact mul_right_cancel₀ unit (by rw [same]; ring)
    exact_mod_cast shifted
  have large : 2 ^ 52 ≤ second.significand := other.large.resolve_right (by have := one.low; omega)
  have double : 2 ≤ 2 ^ places := Nat.le_self_pow (by omega) 2
  have overflow : 2 ^ 52 * 2 ≤ second.significand * 2 ^ places := Nat.mul_le_mul large double
  have := one.small
  omega

theorem Canonical.unique (one : first.Canonical) (other : second.Canonical) (same : first.value = second.value) :
    first = second := by
  have exponent : first.exponent = second.exponent :=
    le_antisymm (other.exponent_le one same.symm) (one.exponent_le other same)
  obtain ⟨significand, unit⟩ := first
  obtain ⟨significand', unit'⟩ := second
  cases exponent
  have positive : (2 : ℚ) ^ unit ≠ 0 := zpow_ne_zero _ (by norm_num)
  have equal : (significand : ℚ) = significand' := mul_right_cancel₀ positive same
  rw [Nat.cast_inj.1 equal]

theorem Canonical.eq_zero (one : first.Canonical) (zero : first.value = 0) : first = ⟨0, -1074⟩ := by
  refine one.unique ⟨by norm_num, by norm_num, .inr rfl⟩ (zero.trans ?_)
  rw [value, Nat.cast_zero, zero_mul]

end Dyadic

namespace Magnitude

variable {number other : Float} {negative : Bool} {size : Dyadic}

theorem canonical_ofFloat (finite : ofFloat number = .finite negative size) : size.Canonical := by
  unfold ofFloat at finite
  dsimp only [Nat.pow_eq] at finite
  split at finite
  · cases finite
    exact ⟨by dsimp only; omega, by norm_num, .inr rfl⟩
  · split at finite
    · cases finite
      exact ⟨by dsimp only; omega, by dsimp only; omega, .inl (by dsimp only; omega)⟩
    · split at finite <;> cases finite

theorem toBits_of_finite (finite : ofFloat number = .finite negative size) :
    number.toBits.toNat = (if negative then 2 ^ 63 else 0) +
      (if size.significand < 2 ^ 52 then size.significand
        else (size.exponent + 1075).toNat * 2 ^ 52 + (size.significand - 2 ^ 52)) := by
  have bound := number.toBits.toNat_lt
  unfold ofFloat at finite
  dsimp only [Nat.pow_eq] at finite
  generalize number.toBits.toNat = bits at *
  split at finite
  · cases finite
    simp only [beq_iff_eq]
    split <;> split <;> omega
  · split at finite
    · cases finite
      simp only [beq_iff_eq]
      split <;> split <;> omega
    · split at finite <;> cases finite

theorem ofFloat_injective (finite : ofFloat number = .finite negative size)
    (again : ofFloat other = .finite negative size) : number = other := by
  rw [← Float.toBits_inj, ← UInt64.toNat_inj, toBits_of_finite finite, toBits_of_finite again]

end Magnitude

namespace Number

variable {number other : Float} {whole : Int}

theorem finite_of_value? {value : ℚ} (known : value? number = some value) :
    ∃ negative size, Magnitude.ofFloat number = .finite negative size ∧
      value = if negative then -size.value else size.value := by
  unfold value? at known
  cases shape : Magnitude.ofFloat number with
  | notANumber | infinite => simp [shape, Magnitude.value?] at known
  | finite negative size =>
    rw [shape] at known
    exact ⟨negative, size, rfl, (Option.some.inj known).symm⟩

theorem ne_nan_of_value? {value : ℚ} (known : value? number = some value) : number ≠ Float.nan := by
  rintro rfl
  have shape : Magnitude.ofFloat Float.nan = .notANumber := by decide +kernel
  rw [value?, shape] at known
  cases known

theorem eq_zero_of_opposite {size size' : Dyadic} (finite : Magnitude.ofFloat number = .finite false size)
    (finite' : Magnitude.ofFloat other = .finite true size') (same : size.value = -size'.value) :
    number = 0 ∧ other = -0 := by
  have positive := size.value_nonneg
  have positive' := size'.value_nonneg
  have zero := (Magnitude.canonical_ofFloat finite).eq_zero (by linarith)
  have zero' := (Magnitude.canonical_ofFloat finite').eq_zero (by linarith)
  rw [zero] at finite
  rw [zero'] at finite'
  exact ⟨Magnitude.ofFloat_injective finite (by decide +kernel),
    Magnitude.ofFloat_injective finite' (by decide +kernel)⟩

theorem beq_of_value?_eq {value : ℚ} (known : value? number = some value) (again : value? other = some value) :
    (number == other) = true := by
  rw [Float.beq_iff_ne_nan_and_eq]
  refine ⟨ne_nan_of_value? known, ne_nan_of_value? again, ?_⟩
  obtain ⟨negative, size, finite, equal⟩ := finite_of_value? known
  obtain ⟨negative', size', finite', equal'⟩ := finite_of_value? again
  have canonical := Magnitude.canonical_ofFloat finite
  have canonical' := Magnitude.canonical_ofFloat finite'
  have same := equal.symm.trans equal'
  cases negative <;> cases negative'
  · cases canonical.unique canonical' same
    exact .inl (Magnitude.ofFloat_injective finite finite')
  · exact .inr (.inl (eq_zero_of_opposite finite finite' same))
  · exact .inr (.inr (eq_zero_of_opposite finite' finite same.symm).symm)
  · cases canonical.unique canonical' (neg_injective same)
    exact .inl (Magnitude.ofFloat_injective finite finite')

end Number

end TabScript
