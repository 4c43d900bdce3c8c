/-! Places in a program text, and the stretches between two places. -/

set_option autoImplicit false

namespace TabScript

/-- A point in the text. Lines count from one; columns count characters from zero,
so that a tab takes one column. -/
structure Position where
  line : Nat
  column : Nat
  deriving DecidableEq, Repr, Inhabited

namespace Position

instance : LE Position where
  le first second :=
    first.line < second.line ∨ first.line = second.line ∧ first.column ≤ second.column

instance (first second : Position) : Decidable (first ≤ second) :=
  inferInstanceAs (Decidable (_ ∨ _))

instance : Min Position := minOfLe

instance : Max Position := maxOfLe

def origin : Position := ⟨1, 0⟩

/-- The place behind a character: only a line feed begins a new line. -/
def after (position : Position) (character : Char) : Position :=
  if character = '\n' then ⟨position.line + 1, 0⟩ else ⟨position.line, position.column + 1⟩

def afterAll (position : Position) (characters : List Char) : Position :=
  characters.foldl after position

def right (position : Position) : Position :=
  ⟨position.line, position.column + 1⟩

def text (position : Position) : String :=
  s!"{position.line}:{position.column + 1}"

end Position

structure Span where
  start : Position
  stop : Position
  deriving DecidableEq, Repr, Inhabited

namespace Span

def point (position : Position) : Span := ⟨position, position⟩

def single (position : Position) : Span := ⟨position, position.right⟩

def union (first second : Span) : Span :=
  ⟨min first.start second.start, max first.stop second.stop⟩

def unionAll : List Span → Option Span
  | [] => none
  | first :: others => some (others.foldl union first)

end Span

end TabScript
