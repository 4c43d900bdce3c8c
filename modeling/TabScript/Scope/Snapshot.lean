import TabScript.Json.Layout
import TabScript.Scope.Arena
import TabScript.Value.Exchange

/-! Pictures of scopes for the host, from the global scope inward. -/

set_option autoImplicit false

namespace TabScript

/-- The variables of a scope in the order of their names, the call it belongs to, and the scope
inside it. -/
inductive Snapshot where
  | level (names : List (String × Json)) (frame : Option Frame) (inner : Option Snapshot)

namespace Snapshot

def empty : Snapshot := level [] none none

instance : Inhabited Snapshot := ⟨empty⟩

/-- The variables of a scope. Functions that no program defined are left out. -/
def namesOf (heap : Heap) (bindings : Bindings) : List (String × Json) :=
  let shown := (bindings.filter fun bound => !bound.2.isBuiltin).map fun bound =>
    (bound.1, bound.2.toJson heap)
  shown.mergeSort fun first second => first.1 ≤ second.1

def around (heap : Heap) (inner : Option Snapshot) (scope : Scope) : Option Snapshot :=
  some (level (namesOf heap scope.bindings) scope.frame inner)

def get? : Snapshot → String → Option Json
  | level names _ none, name => names.lookup name
  | level names _ (some inner), name => (inner.get? name).or (names.lookup name)

def depth : Snapshot → Nat
  | level _ _ none => 1
  | level _ _ (some inner) => inner.depth + 1

def toJson : Snapshot → Json
  | level names frame inner =>
    let call := match frame with
      | none => []
      | some frame => [("name", Json.text frame.name), ("args", Json.texts frame.parameters)]
    let inside := match inner with
      | none => []
      | some inner => [("subscope", inner.toJson)]
    .object (("variables", .object names) :: call ++ inside)

end Snapshot

def Arena.snapshot (arena : Arena) (heap : Heap) (id : ScopeId) : Snapshot :=
  ((arena.chain id).foldl (Snapshot.around heap) none).getD .empty

end TabScript
