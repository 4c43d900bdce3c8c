/-! The lines of a text as editors show them. -/

set_option autoImplicit false

namespace TabScript.Source

/-- A line feed ends a line, and a carriage return directly before it goes with it. The end of the
text ends a line only if something stands on that line. -/
def lines : List Char → List (List Char)
  | [] => []
  | '\n' :: rest => [] :: lines rest
  | '\r' :: '\n' :: rest => [] :: lines rest
  | character :: rest =>
    match lines rest with
    | [] => [[character]]
    | line :: others => (character :: line) :: others

def line? (all : List (List Char)) (number : Nat) : Option (List Char) :=
  if number = 0 then none else all[number - 1]?

end TabScript.Source
