/-! The values that a program and its host exchange. -/

set_option autoImplicit false

namespace TabScript

/-- A JSON value. Whole numbers are told apart from doubles, and an object keeps the order of its
fields. -/
inductive Json where
  | null
  | boolean (truth : Bool)
  | integer (number : Int)
  | float (number : Float)
  | text (characters : String)
  | array (items : List Json)
  | object (fields : List (String × Json))
  deriving Inhabited

namespace Json

def texts (items : List String) : Json := array (items.map text)

end Json

end TabScript
