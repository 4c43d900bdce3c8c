import TabScript.Number.Binary

/-! Remainders of doubles.

The remainder of a truncated division is computed without rounding. The modulo of the language is
made from it so that the result takes the sign of the divisor. -/

set_option autoImplicit false

namespace TabScript.Number

/-- The remainder of truncated division on magnitudes. It is exact: both numbers are whole
multiples of the smaller of the two powers of two. -/
def sizeRemainder (first second : Dyadic) : Dyadic :=
  let unit := min first.exponent second.exponent
  let count (number : Dyadic) : Nat := number.significand * Nat.pow 2 (number.exponent - unit).toNat
  ⟨count first % count second, unit⟩

def remainder (dividend divisor : Float) : Float :=
  match Magnitude.ofFloat dividend, Magnitude.ofFloat divisor with
  | .finite negative first, .finite _ second =>
    if second.significand = 0 then 0.0 / 0.0
    else signed negative (sizeRemainder first second).toFloat
  | .finite _ _, .infinite _ => dividend
  | _, _ => 0.0 / 0.0

/-- A remainder that takes the sign of the divisor, made from one that takes the sign of the
dividend. -/
def floored {α : Type} [Add α] (truncated : α → α → α) (dividend divisor : α) : α :=
  truncated (truncated dividend divisor + divisor) divisor

def modulo (dividend divisor : Float) : Float := floored remainder dividend divisor

end TabScript.Number
