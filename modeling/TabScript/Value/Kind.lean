/-! The types of values at run time. -/

set_option autoImplicit false

namespace TabScript

inductive ValueKind where
  | none
  | boolean
  | number
  | text
  | array
  | function
  deriving DecidableEq, Repr

namespace ValueKind

def name : ValueKind → String
  | none => "None"
  | boolean => "Boolean"
  | number => "Number"
  | text => "String"
  | array => "Array"
  | function => "Function"

def describe : ValueKind → String
  | none => "None"
  | boolean => "a boolean"
  | number => "a number"
  | text => "a string"
  | array => "an array"
  | function => "a function"

end ValueKind

end TabScript
