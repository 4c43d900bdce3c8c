import TabScript.Number.Binary

/-! Numbers read from decimal text. -/

set_option autoImplicit false

namespace TabScript.Number

def digitsValue (digits : List Char) : Nat :=
  digits.foldl (fun value digit => 10 * value + (digit.toNat - '0'.toNat)) 0

def ofDigits (whole fraction : List Char) : Float :=
  Float.ofScientific (digitsValue (whole ++ fraction)) true fraction.length

def ofScientific (whole fraction : List Char) (exponent : Int) : Float :=
  let places := exponent - fraction.length
  Float.ofScientific (digitsValue (whole ++ fraction)) (places < 0) places.natAbs

def splitSign : List Char → Bool × List Char
  | '-' :: rest => (true, rest)
  | '+' :: rest => (false, rest)
  | rest => (false, rest)

def exponent? : List Char → Option Int
  | [] => some 0
  | marker :: rest =>
    let (negative, digits) := splitSign rest
    if (marker = 'e' ∨ marker = 'E') ∧ digits ≠ [] ∧ digits.all Char.isDigit then
      let size : Int := digitsValue digits
      some (if negative then -size else size)
    else
      none

/-- A number without its sign. There is at least one digit before or behind the point. -/
def unsigned? (characters : List Char) : Option Float :=
  let whole := characters.takeWhile Char.isDigit
  let rest := characters.dropWhile Char.isDigit
  let (fraction, tail) :=
    match rest with
    | '.' :: behind => (behind.takeWhile Char.isDigit, behind.dropWhile Char.isDigit)
    | _ => ([], rest)
  if whole = [] ∧ fraction = [] then none
  else (exponent? tail).map (ofScientific whole fraction)

/-- Reads a double: a decimal with optional sign, point and exponent, or the name of an infinity
or of the value that is not a number, in letters of either case. -/
def read? (text : String) : Option Float :=
  let (negative, characters) := splitSign text.toList
  let lowered := characters.map Char.toLower
  let size :=
    if lowered = "inf".toList ∨ lowered = "infinity".toList then
      some (Float.ofBits 0x7FF0000000000000)
    else if lowered = "nan".toList then
      some (Float.ofBits 0x7FF8000000000000)
    else
      unsigned? characters
  size.map (signed negative)

end TabScript.Number
