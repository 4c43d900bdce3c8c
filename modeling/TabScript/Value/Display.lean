import TabScript.Text.Quoted
import TabScript.Value.Heap

/-! The text of a value. Texts stand bare by themselves and quoted inside arrays. -/

set_option autoImplicit false

namespace TabScript.Value

def ellipsis : String := "[...]"

def itemText (arrays : ArrayRef → String) : Value → String
  | none => "None"
  | boolean truth => if truth then "True" else "False"
  | number value => Number.text value
  | text characters => Text.quoted characters
  | array ref => arrays ref
  | function made => "<function " ++ made.name ++ ">"

/-- The text of an array that stands inside the given ones. No array is written out inside itself,
so a heap has a bound on the depth. -/
def arrayText (heap : Heap) : Nat → List ArrayRef → ArrayRef → String
  | 0, _, _ => ellipsis
  | budget + 1, ancestors, ref =>
    if ref ∈ ancestors then ellipsis
    else
      let texts := (heap.items ref).map (itemText (arrayText heap budget (ref :: ancestors)))
      "[" ++ ", ".intercalate texts ++ "]"

def display (heap : Heap) : Value → String
  | text characters => characters
  | value => itemText (arrayText heap (heap.arrays.size + 1) []) value

end TabScript.Value
