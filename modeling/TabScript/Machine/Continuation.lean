import TabScript.Machine.Replay

/-! Work that is still to be done, one piece on top of the other. -/

set_option autoImplicit false

namespace TabScript

inductive Work where
  | statements (remaining : List Node)
  | header (loop : Node)

/-- What happens when the work is done: nothing more, the loop around it looks at its condition
again, or the call that it is the body of returns nothing. -/
inductive Sequel where
  | nothing
  | recheck (loop : Node)
  | return
  deriving Inhabited

structure Activity where
  work : Work
  scope : ScopeId
  sequel : Sequel
  replay : Replay

inductive Continuation where
  | entering (closure : Closure) (arguments : List Value)
  | running (activity : Activity)

namespace Activity

def block (statements : List Node) (scope : ScopeId) : Activity :=
  ⟨.statements statements, scope, .nothing, .fresh⟩

def round (statements : List Node) (scope : ScopeId) (loop : Node) : Activity :=
  ⟨.statements statements, scope, .recheck loop, .fresh⟩

def header (loop : Node) (scope : ScopeId) : Activity :=
  ⟨.header loop, scope, .nothing, .fresh⟩

def body (closure : Closure) (scope : ScopeId) : Activity :=
  ⟨.statements closure.body, scope, .return, .fresh⟩

def current? (activity : Activity) : Option Node :=
  match activity.work with
  | .statements remaining => remaining.head?
  | .header loop => some loop

/-- What is left when the current statement is done. Work without statements is dropped, unless
something happens after it. -/
def next? (activity : Activity) : Option Activity :=
  match activity.work with
  | .header _ => none
  | .statements remaining =>
    let rest : Activity := { activity with work := .statements remaining.tail, replay := .fresh }
    match remaining.tail, activity.sequel with
    | [], .nothing => none
    | _, _ => some rest

def upcoming? (activity : Activity) : Option Node :=
  activity.current?.or <|
    match activity.sequel with
    | .recheck loop => some loop
    | _ => none

end Activity

namespace Continuation

/-- A call that is not entered yet stands in the scope its function was defined in. -/
def scope : Continuation → ScopeId
  | entering closure _ => closure.scope
  | running activity => activity.scope

def values : Continuation → List Value
  | entering _ arguments => arguments
  | running activity => activity.replay.values

def upcoming? : Continuation → Option Node
  | entering closure _ => closure.body.head?
  | running activity => activity.upcoming?

def isIdle (continuation : Continuation) : Bool := continuation.upcoming?.isNone

def isCall : Continuation → Bool
  | entering .. => true
  | running activity =>
    match activity.sequel with
    | .return => true
    | _ => false

def deliver (value : Value) : Continuation → Continuation
  | running activity => running { activity with replay := activity.replay.deliver value }
  | entering closure arguments => entering closure arguments

end Continuation

abbrev Stack := List Continuation

namespace Stack

def deliver (value : Value) : Stack → Stack
  | [] => []
  | top :: rest => top.deliver value :: rest

/-- Drops everything up to the body of the innermost call, and tells its scope. -/
def unwind : Stack → Option (ScopeId × Stack)
  | [] => none
  | top :: rest => if top.isCall then some (top.scope, rest) else unwind rest

def resume (activity : Activity) (rest : Stack) : Stack :=
  match activity.next? with
  | some left => .running left :: rest
  | none => rest

end Stack

end TabScript
