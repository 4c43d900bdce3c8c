import TabScript.Number.Shortest

/-! How numbers are written: plain positional decimals for people, and the layout of JSON files. -/

set_option autoImplicit false

namespace TabScript.Number

private def zeros (count : Nat) : List Char := List.replicate count '0'

def digitsOf (number : Nat) : List Char := Nat.toDigits 10 number

def positional (decimal : Decimal) : List Char :=
  let digits := digitsOf decimal.digits
  let point := (digits.length : Int) + decimal.exponent
  if 0 ≤ decimal.exponent then
    digits ++ zeros decimal.exponent.toNat
  else if 0 < point then
    digits.take point.toNat ++ '.' :: digits.drop point.toNat
  else
    '0' :: '.' :: zeros (-point).toNat ++ digits

/-- The text of a number: the shortest decimal that reads back, never with an exponent. Of two
equally good decimals the larger is taken. -/
def text (number : Float) : String :=
  String.ofList <|
    match Magnitude.ofFloat number with
    | .notANumber => ['N', 'a', 'N']
    | .infinite negative => (if negative then ['-'] else []) ++ ['i', 'n', 'f']
    | .finite negative size =>
      let digits := if size.significand = 0 then ['0'] else positional (size.shortest .up)
      (if negative then ['-'] else []) ++ digits

namespace Layout

/-- Decimal points up to this many digits behind the first one are written positionally. -/
def widest : Int := 16

/-- Numbers with at least this many zeros behind the point are written with an exponent. -/
def smallest : Int := -5

def exponentText (exponent : Int) : List Char :=
  'e' :: (if exponent < 0 then '-' else '+') :: digitsOf exponent.natAbs

/-- A decimal as JSON files hold it: whole numbers keep one zero behind the point, and very large
or very small ones have an exponent. -/
def scientific (decimal : Decimal) : List Char :=
  let digits := digitsOf decimal.digits
  let point := (digits.length : Int) + decimal.exponent
  if 0 ≤ decimal.exponent ∧ point ≤ widest then
    positional decimal ++ ['.', '0']
  else if smallest < point ∧ point ≤ widest then
    positional decimal
  else
    match digits with
    | [] => []
    | [digit] => digit :: exponentText (point - 1)
    | first :: others => first :: '.' :: others ++ exponentText (point - 1)

end Layout

/-- The JSON text of a finite number that is not written as an integer; `null` for the others. Of
two equally good decimals the even one is taken. -/
def jsonText (number : Float) : String :=
  String.ofList <|
    match Magnitude.ofFloat number with
    | .finite negative size =>
      let digits :=
        if size.significand = 0 then ['0', '.', '0'] else Layout.scientific (size.shortest .even)
      (if negative then ['-'] else []) ++ digits
    | _ => ['n', 'u', 'l', 'l']

end TabScript.Number
