import TabScript.Machine.Continuation
import TabScript.Scope.Reach

/-! The arrays and scopes of a run, and what calls do to them. -/

set_option autoImplicit false

namespace TabScript

structure Memory where
  heap : Heap
  scopes : Arena

namespace Memory

def initial : Memory := ⟨.empty, .initial⟩

instance : Inhabited Memory := ⟨initial⟩

def assign (memory : Memory) (scope : ScopeId) (name : String) (value : Value) : Memory :=
  match memory with
  | ⟨heap, scopes⟩ => ⟨heap, scopes.assign scope name value⟩

def realize (memory : Memory) (computed : Computed) : Value × Memory :=
  match memory with
  | ⟨heap, scopes⟩ =>
    let (value, larger) := heap.realize computed
    (value, ⟨larger, scopes⟩)

def identify (memory : Memory) : Nat × Memory :=
  match memory with
  | ⟨heap, scopes⟩ =>
    let (identity, larger) := heap.identify
    (identity, ⟨larger, scopes⟩)

def install (memory : Memory) (name : String) (native : Native) : Memory :=
  let (identity, larger) := memory.identify
  larger.assign Arena.global name (.function (.builtin ⟨name, native, identity⟩))

def collect (memory : Memory) (stack : Stack) : Memory :=
  match memory with
  | ⟨heap, scopes⟩ =>
    ⟨heap, (scopes.collect heap (stack.map Continuation.scope)
      (stack.flatMap Continuation.values)).2⟩

/-- Leaves the scope of a call that returned. If it has to stay, this may be the time to look for
scopes that need not. -/
def release (memory : Memory) (scope : ScopeId) (stack : Stack) : Memory :=
  match memory with
  | ⟨heap, scopes⟩ =>
    let (freed, left) := scopes.release scope
    let after : Memory := ⟨heap, left⟩
    if !freed && left.wantsCollection then after.collect stack else after

def enter (memory : Memory) (closure : Closure) (arguments : List Value) : ScopeId × Memory :=
  match memory with
  | ⟨heap, scopes⟩ =>
    let (scope, opened) := scopes.push closure.scope (some ⟨closure.name, closure.parameters⟩)
    let bound := (closure.parameters.zip arguments).foldl
      (fun arena binding => arena.assign scope binding.1 binding.2) opened
    (scope, ⟨heap, bound⟩)

end Memory

inductive Passage where
  | entered (scope : ScopeId)
  | called (closure : Closure) (arguments : List Value)
  | returned (value : Value)

/-- The state before a statement, and the calls entered and left on the way there. Nothing comes next
when the program is done. -/
structure Settled where
  memory : Memory
  passages : List Passage
  next : Option (Activity × Node × Stack)

def Settled.after (passage : Passage) (settled : Settled) : Settled :=
  { settled with passages := passage :: settled.passages }

namespace Stack

def weight : Stack → Nat
  | [] => 0
  | .entering .. :: rest => weight rest + 2
  | .running _ :: rest => weight rest + 1

@[simp] theorem weight_deliver (value : Value) (stack : Stack) :
    weight (deliver value stack) = weight stack := by
  rcases stack with _ | ⟨_ | _, rest⟩ <;> rfl

end Stack

namespace Memory

/-- Brings the top of the stack to a statement: calls are entered, and work that is done is finished.
What is done with the scope of a call that returns is left open. -/
def settleWith (release : Memory → ScopeId → Stack → Memory) (memory : Memory) : Stack → Settled
  | [] => ⟨memory, [], none⟩
  | .entering closure arguments :: rest =>
    let (scope, larger) := memory.enter closure arguments
    (settleWith release larger (.running (.body closure scope) :: rest)).after (.entered scope)
  | .running activity :: rest =>
    match activity.current?, activity.sequel with
    | some node, _ => ⟨memory, [], some (activity, node, rest)⟩
    | none, .nothing => settleWith release memory rest
    | none, .recheck loop => ⟨memory, [], some (.header loop activity.scope, loop, rest)⟩
    | none, .return =>
      let delivered := Stack.deliver .none rest
      (settleWith release (release memory activity.scope delivered) delivered).after
        (.returned .none)
termination_by stack => Stack.weight stack
decreasing_by all_goals simp [Stack.weight]

/-- Brings the top of the stack to a statement, and leaves the scopes of the calls that return. Nothing
is left if there is no statement to run. -/
def settle (memory : Memory) (stack : Stack) : Memory × Option (Activity × Node × Stack) :=
  let settled := memory.settleWith release stack
  (settled.memory, settled.next)

end Memory

end TabScript
