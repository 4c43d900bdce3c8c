import TabScript.Number.Binary

/-! The shortest decimal that reads back as a given double, nearest to it among those.

The candidates with a given count of digits are the two neighbours of the value on the decimal grid
of that count. The first grid that has a neighbour inside the stretch of numbers that round to the
double gives the answer. -/

set_option autoImplicit false

namespace TabScript

structure Decimal where
  digits : Nat
  exponent : Int
  deriving DecidableEq, Repr

/-- Which of two equally near decimals of equal length is taken. -/
inductive Tie where
  | up
  | even
  deriving DecidableEq, Repr

namespace Shortest

def compareScaled (decimal : Decimal) (count : Nat) (exponent : Int) : Ordering :=
  compare (decimal.digits * Nat.pow 10 decimal.exponent.toNat * Nat.pow 2 (-exponent).toNat)
    (count * Nat.pow 2 exponent.toNat * Nat.pow 10 (-decimal.exponent).toNat)

/-- Below a power of two the next double is only half as far away as above it. -/
def narrowBelow (number : Dyadic) : Bool :=
  number.significand = Nat.pow 2 52 ∧ -1074 < number.exponent

/-- Whether a decimal rounds to the double. The ends of the stretch belong to it exactly when the
significand is even, since a tie goes to the even neighbour. -/
def readsBack (number : Dyadic) (decimal : Decimal) : Bool :=
  let low := 4 * number.significand - (if narrowBelow number then 1 else 2)
  let high := 4 * number.significand + 2
  let ends := number.significand % 2 = 0
  let fromLow := compareScaled decimal low (number.exponent - 2)
  let toHigh := compareScaled decimal high (number.exponent - 2)
  (fromLow == .gt || ends && fromLow == .eq) && (toHigh == .lt || ends && toHigh == .eq)

/-- How many digits stand before the decimal point; for numbers below one, the negative count of
zeros behind it. -/
def pointPlace (number : Dyadic) : Int :=
  let estimate := Int.fdiv (((number.significand.log2 : Int) + number.exponent) * 30103) 100000
  let reaches (place : Int) : Bool :=
    compareScaled ⟨1, place⟩ number.significand number.exponent != .gt
  if reaches estimate then
    if reaches (estimate + 1) then estimate + 2 else estimate + 1
  else
    estimate

def floorOn (number : Dyadic) (exponent : Int) : Nat :=
  number.significand * Nat.pow 2 number.exponent.toNat * Nat.pow 10 (-exponent).toNat
    / (Nat.pow 10 exponent.toNat * Nat.pow 2 (-number.exponent).toNat)

def onGrid (tie : Tie) (number : Dyadic) (exponent : Int) : Option Decimal :=
  let below : Decimal := ⟨floorOn number exponent, exponent⟩
  let above : Decimal := ⟨below.digits + 1, exponent⟩
  match readsBack number below, readsBack number above with
  | false, false => none
  | true, false => some below
  | false, true => some above
  | true, true =>
    match compareScaled ⟨below.digits + above.digits, exponent⟩ (2 * number.significand)
        number.exponent with
    | .gt => some below
    | .lt => some above
    | .eq =>
      match tie with
      | .up => some above
      | .even => if below.digits % 2 = 0 then some below else some above

def stripped (decimal : Decimal) : Decimal :=
  if decimal.digits % 10 = 0 then ⟨decimal.digits / 10, decimal.exponent + 1⟩ else decimal

def exactly (number : Dyadic) : Decimal :=
  if 0 ≤ number.exponent then
    ⟨number.significand * Nat.pow 2 number.exponent.toNat, 0⟩
  else
    ⟨number.significand * Nat.pow 5 (-number.exponent).toNat, number.exponent⟩

end Shortest

def Dyadic.shortest (tie : Tie) (number : Dyadic) : Decimal :=
  let place := Shortest.pointPlace number
  let found := (List.range 17).findSome? fun index =>
    Shortest.onGrid tie number (place - (index + 1 : Nat))
  (found.map Shortest.stripped).getD (Shortest.exactly number)

end TabScript
