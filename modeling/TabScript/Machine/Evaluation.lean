import TabScript.Diagnostic.Cause
import TabScript.Machine.Event
import TabScript.Machine.Memory
import TabScript.Value.Operation

/-! Evaluation of expressions, strictly from left to right. -/

set_option autoImplicit false

namespace TabScript

/-- A function of the host: from its state and the JSON forms of the arguments to a value, nothing,
or a message of failure, and its next state. -/
abbrev HostFunction (σ : Type) := σ → List Json → Except String (Option Json) × σ

/-- What does not change while a statement runs: its scope, the kinds of events that anybody wants
to hear of, and the functions of the host. -/
structure Surroundings (σ : Type) where
  scope : ScopeId
  wants : EventKind → Bool
  hosts : Array (HostFunction σ)

/-- What changes while a statement runs. `events` wait until the statement is done; both they and
`calls` are kept with the last one first. -/
structure Progress (σ : Type) where
  memory : Memory
  replay : Replay
  host : σ
  events : List Event
  calls : List HostCall

/-- Why a statement stops before its end: it fails, or a function of the program has to run
first. -/
inductive Interrupt where
  | fail (fault : Fault)
  | suspend (closure : Closure) (arguments : List Value)

abbrev Evaluation (σ : Type) := ExceptT Interrupt (StateM (Progress σ))

namespace Evaluation

variable {σ : Type}

def fail {α : Type} (cause : Cause) (span : Span) : Evaluation σ α :=
  throw (.fail ⟨cause, span⟩)

def heap : Evaluation σ Heap := return (← get).memory.heap

def locate {α : Type} (spanOf : Culprit → Span) (result : Except OperationFault α) :
    Evaluation σ α :=
  match result with
  | .ok value => return value
  | .error fault => fail (.operation fault) (spanOf fault.culprit)

def realize (computed : Computed) : Evaluation σ Value := fun progress =>
  match progress with
  | ⟨memory, replay, host, events, calls⟩ =>
    let (value, larger) := memory.realize computed
    (.ok value, ⟨larger, replay, host, events, calls⟩)

def setHeap (changed : Heap) : Evaluation σ Unit := fun progress =>
  match progress with
  | ⟨⟨_, scopes⟩, replay, host, events, calls⟩ =>
    (.ok (), ⟨⟨changed, scopes⟩, replay, host, events, calls⟩)

def assign (scope : ScopeId) (name : String) (value : Value) : Evaluation σ Unit := fun progress =>
  match progress with
  | ⟨memory, replay, host, events, calls⟩ =>
    (.ok (), ⟨memory.assign scope name value, replay, host, events, calls⟩)

def emit (event : Event) : Evaluation σ Unit :=
  modify fun progress => { progress with events := event :: progress.events }

/-- Evaluates an expression, unless its value is known from before the statement waited. -/
def remember (evaluate : Evaluation σ Value) : Evaluation σ Value := fun progress =>
  match progress.replay.take with
  | (.replayed value, replay) => (.ok value, { progress with replay := replay })
  | (.fresh slot, replay) =>
    match evaluate { progress with replay := replay } with
    | (.ok value, after) => (.ok value, { after with replay := after.replay.fill slot value })
    | (.error (.suspend closure arguments), after) =>
      (.error (.suspend closure arguments), { after with replay := after.replay.suspend slot })
    | (.error (.fail fault), after) => (.error (.fail fault), after)

/-- The parts of a subscript that can be to blame. `bound` is the stretch of the index, or of both
ends of a slice. -/
def subscriptSpan (whole target bound : Span) (ends : Option (Span × Span)) : Culprit → Span
  | .target => target
  | .operand => bound
  | .sliceStart => (ends.map Prod.fst).getD whole
  | .sliceStop => (ends.map Prod.snd).getD whole
  | .operator => whole

def elementSpan (whole : Span) (target index : Node) : Culprit → Span :=
  subscriptSpan whole target.span index.span none

def sliceSpan (whole : Span) (target start stop : Node) : Culprit → Span :=
  subscriptSpan whole target.span (start.span.union stop.span) (some (start.span, stop.span))

def print (surroundings : Surroundings σ) (arguments : List Value) : Evaluation σ Value := do
  if surroundings.wants .print then
    let heap ← heap
    emit (.print (" ".intercalate (arguments.map (Value.display heap)))
      (arguments.map (Value.toJson heap)))
  return .none

def length (span : Span) (nodes : List Node) (arguments : List Value) : Evaluation σ Value := do
  match arguments with
  | [argument] =>
    let blamed := (nodes.head?.map Node.span).getD span
    let count ← locate (fun _ => blamed) (argument.length (← heap))
    return .number (Float.ofNat count)
  | _ => fail (.wrongArgumentCount "len" 1 arguments.length) span

def callHost (surroundings : Surroundings σ) (span : Span) (name : String) (index : Nat)
    (arguments : List Value) : Evaluation σ Value := do
  let heap ← heap
  let given := arguments.map (Value.toJson heap)
  match surroundings.hosts[index]? with
  | none => return .none
  | some run =>
    let (answer, host) := run (← get).host given
    modify fun progress =>
      { progress with host := host, calls := ⟨name, given⟩ :: progress.calls }
    match answer with
    | .error message => fail (.hostFailure message) span
    | .ok none => return .none
    | .ok (some json) =>
      match Value.ofJson heap json with
      | some (value, larger) =>
        setHeap larger
        return value
      | none => fail (.unusableAnswer name) span

def callBuiltin (surroundings : Surroundings σ) (span : Span) (builtin : Builtin)
    (nodes : List Node) (arguments : List Value) : Evaluation σ Value :=
  match builtin.native with
  | .print => print surroundings arguments
  | .length => length span nodes arguments
  | .host index => callHost surroundings span builtin.name index arguments

def calleeName (heap : Heap) (callee : Node) (value : Value) : String :=
  match callee with
  | .identifier _ name => name
  | _ => value.display heap

/-- Calls a value. A function of the program has to run before the statement goes on. -/
def apply (surroundings : Surroundings σ) (span : Span) (callee : Node) (nodes : List Node)
    (function : Value) (arguments : List Value) : Evaluation σ Value := do
  match function with
  | .function (.closure closure) =>
    if closure.parameters.length = arguments.length then
      throw (.suspend closure arguments)
    else
      fail (.wrongArgumentCount closure.name closure.parameters.length arguments.length) span
  | .function (.builtin builtin) => callBuiltin surroundings span builtin nodes arguments
  | other => fail (.notFunction (calleeName (← heap) callee other)) callee.span

def lookup (surroundings : Surroundings σ) (span : Span) (name : String) : Evaluation σ Value := do
  match (← get).memory.scopes.lookup surroundings.scope name with
  | some value => return value
  | none => fail (.undefinedVariable name) span

mutual

def eval (surroundings : Surroundings σ) : Node → Evaluation σ Value
  | .literal _ value => remember (return .ofLiteral value)
  | .identifier span name => remember (lookup surroundings span name)
  | .unary _ operator operatorSpan operand => remember do
    let value ← eval surroundings operand
    locate (fun culprit => if culprit = .operator then operatorSpan else operand.span)
      (value.unary operator)
  | .binary _ operator operatorSpan left right => remember do
    let first ← eval surroundings left
    let second ← eval surroundings right
    let computed ← locate
      (fun
        | .operator => operatorSpan
        | .target => left.span
        | _ => right.span)
      (Value.binary (← heap) operator first second)
    realize computed
  | .call span callee nodes => remember do
    let function ← eval surroundings callee
    let arguments ← evalAll surroundings nodes
    apply surroundings span callee nodes function arguments
  | .element span target index => remember do
    let container ← eval surroundings target
    let position ← eval surroundings index
    locate (elementSpan span target index) (Value.element (← heap) container position)
  | .slice span target start stop => remember do
    let container ← eval surroundings target
    let first ← eval surroundings start
    let last ← eval surroundings stop
    let computed ← locate (sliceSpan span target start stop)
      (Value.slice (← heap) container first last)
    realize computed
  | .array _ nodes => remember do
    realize (.items (← evalAll surroundings nodes))
  | .assignment span _ _ | .choice span _ _ _ _ | .loop span _ _ | .definition span _ _ _
  | .result span _ | .pass span | .deletion span _ => remember (fail .statementAsValue span)

def evalAll (surroundings : Surroundings σ) : List Node → Evaluation σ (List Value)
  | [] => return []
  | node :: nodes => do
    let value ← eval surroundings node
    let values ← evalAll surroundings nodes
    return value :: values

end

end Evaluation

end TabScript
