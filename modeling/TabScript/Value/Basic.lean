import TabScript.Grammar.Tree
import TabScript.Value.Kind

/-! Values at run time.

Arrays live in a heap and a value only names one, so that all its holders see a change. Functions
carry what they are made of, and a number that tells them apart from any other function. -/

set_option autoImplicit false

namespace TabScript

structure ArrayRef where
  index : Nat
  deriving DecidableEq, Repr

/-- The place of a scope among all scopes. A place is used again once its scope is gone. -/
structure ScopeId where
  slot : Nat
  deriving DecidableEq, Repr

structure Closure where
  name : String
  parameters : List String
  body : List Node
  scope : ScopeId
  identity : Nat

/-- What a built-in function does. Functions of the host are known by their place among them. -/
inductive Native where
  | print
  | length
  | host (index : Nat)
  deriving DecidableEq, Repr

structure Builtin where
  name : String
  native : Native
  identity : Nat
  deriving DecidableEq, Repr

inductive Function where
  | closure (closure : Closure)
  | builtin (builtin : Builtin)

namespace Function

def name : Function → String
  | closure made => made.name
  | builtin made => made.name

def isSame : Function → Function → Bool
  | closure first, closure second => first.identity == second.identity
  | builtin first, builtin second => first.identity == second.identity
  | _, _ => false

end Function

inductive Value where
  | none
  | boolean (truth : Bool)
  | number (number : Float)
  | text (characters : String)
  | array (ref : ArrayRef)
  | function (function : Function)

instance : Inhabited Value := ⟨.none⟩

namespace Value

def kind : Value → ValueKind
  | none => .none
  | boolean _ => .boolean
  | number _ => .number
  | text _ => .text
  | array _ => .array
  | function _ => .function

def ofLiteral : Option Literal → Value
  | Option.none => none
  | some (.boolean truth) => boolean truth
  | some (.number value) => number value
  | some (.text characters) => text characters

def truth? : Value → Option Bool
  | boolean truth => some truth
  | _ => Option.none

def isBuiltin : Value → Bool
  | function (.builtin _) => true
  | _ => false

end Value

end TabScript
