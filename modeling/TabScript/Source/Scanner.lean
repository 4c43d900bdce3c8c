import TabScript.Source.Span

/-! A cursor over the characters of a program text that knows where it stands. -/

set_option autoImplicit false

namespace TabScript

structure Scanner where
  rest : List Char
  position : Position
  deriving DecidableEq, Repr

namespace Scanner

def ofString (source : String) : Scanner := ⟨source.toList, .origin⟩

def peek (scanner : Scanner) : Option Char := scanner.rest.head?

def peekSecond (scanner : Scanner) : Option Char := scanner.rest.tail.head?

def atEnd (scanner : Scanner) : Bool := scanner.rest.isEmpty

/-- Moves over one character; the end of the text is never left. -/
def advance (scanner : Scanner) : Scanner :=
  match scanner.rest with
  | [] => scanner
  | character :: rest => ⟨rest, scanner.position.after character⟩

def advanceIf (scanner : Scanner) (test : Char → Bool) : Option (Char × Scanner) :=
  match scanner.rest with
  | [] => none
  | character :: _ => if test character then some (character, scanner.advance) else none

def run (scanner : Scanner) (test : Char → Bool) : List Char :=
  scanner.rest.takeWhile test

def skipWhile (scanner : Scanner) (test : Char → Bool) : Scanner :=
  ⟨scanner.rest.dropWhile test, scanner.position.afterAll (scanner.run test)⟩

theorem length_dropWhile_le (test : Char → Bool) (characters : List Char) :
    (characters.dropWhile test).length ≤ characters.length :=
  (List.dropWhile_sublist test).length_le

theorem length_rest_skipWhile_le (scanner : Scanner) (test : Char → Bool) :
    (scanner.skipWhile test).rest.length ≤ scanner.rest.length :=
  length_dropWhile_le test scanner.rest

theorem length_rest_advance_le (scanner : Scanner) :
    scanner.advance.rest.length ≤ scanner.rest.length := by
  unfold advance
  split
  · exact Nat.le_refl _
  · simp_all

theorem length_rest_advance_lt {scanner : Scanner} {character : Char} {rest : List Char}
    (shape : scanner.rest = character :: rest) :
    scanner.advance.rest.length < scanner.rest.length := by
  simp [advance, shape]

/-- A run that begins here is not empty, so moving over it makes progress. -/
theorem length_rest_skipWhile_lt (scanner : Scanner) (test : Char → Bool)
    {character : Char} {rest : List Char}
    (shape : scanner.rest = character :: rest) (passes : test character = true) :
    (scanner.skipWhile test).rest.length < scanner.rest.length := by
  have shorter := length_dropWhile_le test rest
  simp only [skipWhile, shape, List.dropWhile_cons, passes, if_true, List.length_cons]
  omega

end Scanner

end TabScript
