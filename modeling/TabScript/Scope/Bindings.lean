import TabScript.Value.Basic

/-! Names and their values. -/

set_option autoImplicit false

namespace TabScript

/-- Each name is bound at most once, in the order of the first binding. -/
abbrev Bindings := List (String × Value)

namespace Bindings

def get? : Bindings → String → Option Value
  | [], _ => none
  | (bound, value) :: rest, name => if bound = name then some value else get? rest name

def set : Bindings → String → Value → Bindings
  | [], name, value => [(name, value)]
  | (bound, old) :: rest, name, value =>
    if bound = name then (name, value) :: rest else (bound, old) :: set rest name value

theorem get?_set_same (bindings : Bindings) (name : String) (value : Value) :
    (bindings.set name value).get? name = some value := by
  induction bindings with
  | nil => simp [set, get?]
  | cons first rest ih =>
    by_cases same : first.1 = name <;> simp [set, get?, same, ih]

theorem get?_set_of_ne (bindings : Bindings) {name other : String} (value : Value)
    (differ : other ≠ name) : (bindings.set name value).get? other = bindings.get? other := by
  induction bindings with
  | nil => simp [set, get?, Ne.symm differ]
  | cons first rest ih =>
    by_cases same : first.1 = name
    · simp [set, get?, same, Ne.symm differ]
    · simp [set, get?, same, ih]

end Bindings

end TabScript
