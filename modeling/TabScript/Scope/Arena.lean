import TabScript.Scope.Bindings

/-! All scopes of a run.

Slot zero holds the global scope for ever. The scope of a call is put into a slot when the call is
entered, and taken out when it returns unless a function was defined in it. Slots are used again. -/

set_option autoImplicit false

namespace TabScript

structure Frame where
  name : String
  parameters : List String
  deriving DecidableEq, Repr

/-- A scope stands inside the scope that its function was defined in, not inside its caller's. A
captured scope may still be needed by a function that was defined in it. -/
structure Scope where
  parent : Option ScopeId
  bindings : Bindings
  frame : Option Frame
  captured : Bool

/-- `free` holds the empty slots, the one to be used next first. `retained` counts the captured
scopes that were left by their calls since the last collection. -/
structure Arena where
  slots : Array (Option Scope)
  free : List Nat
  retained : Nat
  threshold : Nat

namespace Arena

/-- No collection runs before this many captured scopes were left. -/
def leastThreshold : Nat := 64

def initial : Arena :=
  ⟨#[some ⟨none, [], none, true⟩], [], 0, leastThreshold⟩

instance : Inhabited Arena := ⟨initial⟩

def global : ScopeId := ⟨0⟩

def scope? (arena : Arena) (id : ScopeId) : Option Scope := (arena.slots[id.slot]?).join

def modify (arena : Arena) (id : ScopeId) (change : Scope → Scope) : Arena :=
  { arena with slots := arena.slots.modify id.slot (Option.map change) }

def push (arena : Arena) (parent : ScopeId) (frame : Option Frame) : ScopeId × Arena :=
  let scope : Scope := ⟨some parent, [], frame, false⟩
  match arena.free with
  | [] => (⟨arena.slots.size⟩, { arena with slots := arena.slots.push (some scope) })
  | slot :: free =>
    (⟨slot⟩, { arena with slots := arena.slots.setIfInBounds slot (some scope), free := free })

/-- Leaves the scope of a call, and tells whether its slot became free. -/
def release (arena : Arena) (id : ScopeId) : Bool × Arena :=
  match arena.scope? id with
  | none => (false, arena)
  | some scope =>
    if scope.captured then (false, { arena with retained := arena.retained + 1 })
    else
      (true, { arena with
        slots := arena.slots.setIfInBounds id.slot none
        free := id.slot :: arena.free })

def wantsCollection (arena : Arena) : Bool := arena.threshold ≤ arena.retained

def capture (arena : Arena) (id : ScopeId) : Arena :=
  arena.modify id fun scope => { scope with captured := true }

/-- Binds a name in a scope itself. Outer scopes are never written to, even if they bind it. -/
def assign (arena : Arena) (id : ScopeId) (name : String) (value : Value) : Arena :=
  arena.modify id fun scope => { scope with bindings := scope.bindings.set name value }

def chainWithin (arena : Arena) : Nat → ScopeId → List Scope
  | 0, _ => []
  | budget + 1, id =>
    match arena.scope? id with
    | none => []
    | some scope =>
      match scope.parent with
      | none => [scope]
      | some parent => scope :: chainWithin arena budget parent

/-- The scopes from a place outward. A chain longer than the count of slots would have to come
back to one of them. -/
def chain (arena : Arena) (id : ScopeId) : List Scope :=
  arena.chainWithin arena.slots.size id

def lookup (arena : Arena) (id : ScopeId) (name : String) : Option Value :=
  (arena.chain id).findSome? fun scope => scope.bindings.get? name

def live (arena : Arena) : Nat := arena.slots.countP Option.isSome

end Arena

end TabScript
