import TabScript.Json.Basic
import TabScript.Value.Display

/-! Values as the host sees them, and back. -/

set_option autoImplicit false

namespace TabScript

namespace Number

/-- Below this size every whole double is an exact integer. -/
def exactLimit : Nat := Nat.pow 2 53

def toJson (number : Float) : Json :=
  match toInt? number with
  | some whole => if whole.natAbs < exactLimit then .integer whole else .float number
  | none => if (Magnitude.ofFloat number).isFinite then .float number else .null

end Number

namespace Value

/-- The JSON form of a value, given those of arrays. Functions are only described, so that the host
cannot call them. -/
def itemJson (arrays : ArrayRef → Json) : Value → Json
  | none => .null
  | boolean truth => .boolean truth
  | number value => Number.toJson value
  | text characters => .text characters
  | array ref => arrays ref
  | function (.closure made) =>
    .object [("args", .texts made.parameters), ("function", .text made.name)]
  | function (.builtin made) => .object [("builtin", .text made.name)]

def arrayJson (heap : Heap) : Nat → List ArrayRef → ArrayRef → Json
  | 0, _, _ => .text ellipsis
  | budget + 1, ancestors, ref =>
    if ref ∈ ancestors then .text ellipsis
    else .array ((heap.items ref).map (itemJson (arrayJson heap budget (ref :: ancestors))))

def toJson (heap : Heap) (value : Value) : Json :=
  itemJson (arrayJson heap (heap.arrays.size + 1) []) value

mutual

def ofJson (heap : Heap) : Json → Option (Value × Heap)
  | .null => some (none, heap)
  | .boolean truth => some (boolean truth, heap)
  | .integer whole => some (number (Number.ofInt whole), heap)
  | .float value => some (number value, heap)
  | .text characters => some (text characters, heap)
  | .array items =>
    match ofJsonItems heap items with
    | Option.none => Option.none
    | some (values, larger) =>
      let (ref, last) := larger.allocate values
      some (array ref, last)
  | .object _ => Option.none

def ofJsonItems (heap : Heap) : List Json → Option (List Value × Heap)
  | [] => some ([], heap)
  | item :: items =>
    match ofJson heap item with
    | Option.none => Option.none
    | some (value, larger) =>
      match ofJsonItems larger items with
      | Option.none => Option.none
      | some (values, last) => some (value :: values, last)

end

end Value

end TabScript
