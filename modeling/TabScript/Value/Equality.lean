import TabScript.Value.Heap

/-! Equality of values.

Arrays are equal if their items are, pair by pair. A pair of arrays that is met again while it is
being compared counts as equal, so that arrays that contain themselves can be compared. -/

set_option autoImplicit false

namespace TabScript.Value

def equalBy (arrays : ArrayRef → ArrayRef → Bool) : Value → Value → Bool
  | none, none => true
  | boolean first, boolean second => first == second
  | number first, number second => first == second
  | text first, text second => first == second
  | array first, array second => arrays first second
  | function first, function second => first.isSame second
  | _, _ => false

/-- Equality of two arrays while the given pairs are being compared. No pair is compared inside
itself, so a heap has a bound on the depth of comparisons. -/
def equalArrays (heap : Heap) : Nat → List (ArrayRef × ArrayRef) → ArrayRef → ArrayRef → Bool
  | 0, _, _, _ => true
  | budget + 1, visiting, first, second =>
    if first = second ∨ (first, second) ∈ visiting then true
    else
      let left := heap.items first
      let right := heap.items second
      left.length == right.length &&
        (left.zip right).all fun pair =>
          equalBy (equalArrays heap budget ((first, second) :: visiting)) pair.1 pair.2

def isEqual (heap : Heap) (first second : Value) : Bool :=
  equalBy (equalArrays heap (heap.arrays.size * heap.arrays.size + 1) []) first second

/-- The values are not only equal but one: arrays and functions are compared by identity. -/
def isSame (heap : Heap) : Value → Value → Bool
  | array first, array second => first = second
  | function first, function second => first.isSame second
  | first, second => isEqual heap first second

end TabScript.Value
