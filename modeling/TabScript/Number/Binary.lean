/-! Doubles taken apart into exact integers.

Every finite double is a sign and a magnitude `significand * 2 ^ exponent`; all further questions
about its value are answered in integers. -/

set_option autoImplicit false

namespace TabScript

structure Dyadic where
  significand : Nat
  exponent : Int
  deriving DecidableEq, Repr

namespace Dyadic

def toNat? (number : Dyadic) : Option Nat :=
  if 0 ≤ number.exponent then
    some (number.significand * Nat.pow 2 number.exponent.toNat)
  else
    let unit : Nat := Nat.pow 2 (-number.exponent).toNat
    if number.significand % unit = 0 then some (number.significand / unit) else none

def toFloat (number : Dyadic) : Float :=
  if 0 ≤ number.exponent then
    Float.ofScientific (number.significand * Nat.pow 2 number.exponent.toNat) false 0
  else
    let places := (-number.exponent).toNat
    Float.ofScientific (number.significand * Nat.pow 5 places) true places

end Dyadic

inductive Magnitude where
  | notANumber
  | infinite (negative : Bool)
  | finite (negative : Bool) (size : Dyadic)
  deriving DecidableEq, Repr

namespace Magnitude

def ofFloat (number : Float) : Magnitude :=
  let bits := number.toBits.toNat
  let negative : Bool := bits / Nat.pow 2 63 == 1
  let biased : Nat := bits / Nat.pow 2 52 % Nat.pow 2 11
  let fraction : Nat := bits % Nat.pow 2 52
  if biased = 0 then
    .finite negative ⟨fraction, -1074⟩
  else if biased < 2047 then
    .finite negative ⟨Nat.pow 2 52 + fraction, (biased : Int) - 1075⟩
  else if fraction = 0 then
    .infinite negative
  else
    .notANumber

def isFinite : Magnitude → Bool
  | finite _ _ => true
  | _ => false

def toInt? : Magnitude → Option Int
  | finite negative size => size.toNat?.map fun whole => if negative then -(whole : Int) else whole
  | _ => none

end Magnitude

namespace Number

def signed (negative : Bool) (number : Float) : Float :=
  if negative then -number else number

def toInt? (number : Float) : Option Int := (Magnitude.ofFloat number).toInt?

def ofInt (number : Int) : Float :=
  signed (number < 0) (Float.ofScientific number.natAbs false 0)

end Number

end TabScript
