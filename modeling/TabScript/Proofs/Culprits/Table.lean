import TabScript.Machine.Execution
import TabScript.Proofs.Nesting.Nested

/-! What is to blame for what.

An expression evaluates its operands one after the other and then does something with their values. It fails with the
first of the operands that fails, or at what it does itself, and then one part of it is to blame. Statements fail in
the same way. -/

set_option autoImplicit false

namespace TabScript

variable {σ : Type}

namespace Value

def readable? (heap : Heap) : Value → Option Nat
  | text characters => some characters.length
  | array ref => some (heap.items ref).length
  | _ => Option.none

def changeable? (heap : Heap) : Value → Option Nat
  | array ref => some (heap.items ref).length
  | _ => Option.none

/-- Why a subscript finds nothing in a container with so many places, if it has any: the container is to blame if it
has none, the index if there is only one, and otherwise the first of both bounds that is no place. -/
inductive Astray (count : Option Nat) (target : Span) : List (Span × Value) → OperationFault → Span → Prop where
  | container {bounds : List (Span × Value)} {wanted : Wanted} {found : ValueKind} (none : count = Option.none) :
    Astray count target bounds (.mismatch wanted found .target) target
  | index {length : Nat} {span : Span} {index : Value} {fault : OperationFault} (some_ : count = some length)
    (bad : elementPosition index length = .error fault) : Astray count target [(span, index)] fault span
  | start {length : Nat} {first last : Span} {start stop : Value} {fault : OperationFault}
    (some_ : count = some length) (bad : boundPosition .sliceStart start length = .error fault) :
    Astray count target [(first, start), (last, stop)] fault first
  | stop {length place : Nat} {first last : Span} {start stop : Value} {fault : OperationFault}
    (some_ : count = some length) (good : boundPosition .sliceStart start length = .ok place)
    (bad : boundPosition .sliceStop stop length = .error fault) :
    Astray count target [(first, start), (last, stop)] fault last

end Value

namespace Evaluation

inductive Refuses (surroundings : Surroundings σ) (progress : Progress σ) : Node → List Value → Fault → Prop where
  | name {span : Span} {name : String}
    (unbound : progress.memory.scopes.lookup surroundings.scope name = none) :
    Refuses surroundings progress (.identifier span name) [] ⟨.undefinedVariable name, span⟩
  | unary {span operatorSpan : Span} {operator : Operator} {operand : Node} {value : Value}
    {fault : OperationFault} (fails : value.unary operator = .error fault) :
    Refuses surroundings progress (.unary span operator operatorSpan operand) [value]
      ⟨.operation fault, operatorSpan⟩
  | operator {span operatorSpan : Span} {operator : Operator} {left right : Node} {first second : Value}
    {fault : OperationFault} (fails : Value.binary progress.memory.heap operator first second = .error fault)
    (kind : fault.kind = .unknownOperation) :
    Refuses surroundings progress (.binary span operator operatorSpan left right) [first, second]
      ⟨.operation fault, operatorSpan⟩
  | right {span operatorSpan : Span} {operator : Operator} {left right : Node} {first second : Value}
    {fault : OperationFault} (fails : Value.binary progress.memory.heap operator first second = .error fault)
    (kind : fault.kind = .typeViolation ∨ fault.kind = .divideByZero) :
    Refuses surroundings progress (.binary span operator operatorSpan left right) [first, second]
      ⟨.operation fault, right.span⟩
  | element {span place : Span} {target index : Node} {container position : Value} {fault : OperationFault}
    (astray : Value.Astray (container.readable? progress.memory.heap) target.span [(index.span, position)] fault
      place) :
    Refuses surroundings progress (.element span target index) [container, position] ⟨.operation fault, place⟩
  | slice {span place : Span} {target start stop : Node} {container first last : Value} {fault : OperationFault}
    (astray : Value.Astray (container.readable? progress.memory.heap) target.span
      [(start.span, first), (stop.span, last)] fault place) :
    Refuses surroundings progress (.slice span target start stop) [container, first, last]
      ⟨.operation fault, place⟩
  | callee {span : Span} {callee : Node} {nodes : List Node} {value : Value} {arguments : List Value}
    (other : ∀ function, value ≠ .function function) :
    Refuses surroundings progress (.call span callee nodes) (value :: arguments)
      ⟨.notFunction (calleeName progress.memory.heap callee value), callee.span⟩
  | arity {span : Span} {callee : Node} {nodes : List Node} {closure : Closure} {arguments : List Value}
    (differ : closure.parameters.length ≠ arguments.length) :
    Refuses surroundings progress (.call span callee nodes) (.function (.closure closure) :: arguments)
      ⟨.wrongArgumentCount closure.name closure.parameters.length arguments.length, span⟩
  | lengthArity {span : Span} {callee : Node} {nodes : List Node} {builtin : Builtin} {arguments : List Value}
    (native : builtin.native = .length) (differ : arguments.length ≠ 1) :
    Refuses surroundings progress (.call span callee nodes) (.function (.builtin builtin) :: arguments)
      ⟨.wrongArgumentCount "len" 1 arguments.length, span⟩
  | length {span : Span} {callee argument : Node} {builtin : Builtin} {value : Value} {fault : OperationFault}
    (native : builtin.native = .length) (fails : value.length progress.memory.heap = .error fault) :
    Refuses surroundings progress (.call span callee [argument]) [.function (.builtin builtin), value]
      ⟨.operation fault, argument.span⟩
  | host {span : Span} {callee : Node} {nodes : List Node} {builtin : Builtin} {arguments : List Value}
    {index : Nat} {run : HostFunction σ} {message : String} (native : builtin.native = .host index)
    (found : surroundings.hosts[index]? = some run)
    (fails : (run progress.host (arguments.map (Value.toJson progress.memory.heap))).1 = .error message) :
    Refuses surroundings progress (.call span callee nodes) (.function (.builtin builtin) :: arguments)
      ⟨.hostFailure message, span⟩
  | answer {span : Span} {callee : Node} {nodes : List Node} {builtin : Builtin} {arguments : List Value}
    {index : Nat} {run : HostFunction σ} {json : Json} (native : builtin.native = .host index)
    (found : surroundings.hosts[index]? = some run)
    (answers : (run progress.host (arguments.map (Value.toJson progress.memory.heap))).1 = .ok (some json))
    (unusable : Value.ofJson progress.memory.heap json = none) :
    Refuses surroundings progress (.call span callee nodes) (.function (.builtin builtin) :: arguments)
      ⟨.unusableAnswer builtin.name, span⟩

/-- An expression fails, for its own part or with an operand. Its value is not known from before. -/
inductive Stumbles (surroundings : Surroundings σ) : Node → Progress σ → Fault → Prop where
  | here {node : Node} {progress after : Progress σ} {slot : Nat} {replay : Replay} {values : List Value}
    {fault : Fault} (fresh : progress.replay.take = (.fresh slot, replay))
    (given : evalAll surroundings node.operands { progress with replay := replay } = (.ok values, after))
    (refuses : Refuses surroundings after node values fault) : Stumbles surroundings node progress fault
  | operand {node part : Node} {before others : List Node} {progress between : Progress σ} {slot : Nat}
    {replay : Replay} {values : List Value} {fault : Fault} (fresh : progress.replay.take = (.fresh slot, replay))
    (split : node.operands = before ++ part :: others)
    (given : evalAll surroundings before { progress with replay := replay } = (.ok values, between))
    (stumbles : Stumbles surroundings part between fault) : Stumbles surroundings node progress fault

end Evaluation

def Node.conditions : Node → List Node
  | choice _ condition _ others _ => condition :: others.map Branch.condition
  | loop _ condition _ => [condition]
  | _ => []

/-- The expressions of a statement, in the order in which it evaluates them. What is assigned comes first, and of
conditions each one is asked only if the one before does not hold. -/
def Node.evaluated : Node → List Node
  | .assignment _ target value => value :: target.operands
  | .deletion _ target => target.operands
  | .result _ (some value) => [value]
  | .result _ none | .pass _ | .definition .. => []
  | .choice span condition body others otherwise => (Node.choice span condition body others otherwise).conditions
  | .loop _ condition _ => [condition]
  | expression => [expression]

namespace Evaluation

inductive Rejects (heap : Heap) : Node → List Value → Fault → Prop where
  | assignElement {whole span place : Span} {target index value : Node} {given container position : Value}
    {fault : OperationFault} (astray : Value.Astray (container.changeable? heap) target.span
      [(index.span, position)] fault place) :
    Rejects heap (.assignment whole (.element span target index) value) [given, container, position]
      ⟨.operation fault, place⟩
  | assignSlice {whole span place : Span} {target start stop value : Node} {given container first last : Value}
    {fault : OperationFault} (astray : Value.Astray (container.changeable? heap) target.span
      [(start.span, first), (stop.span, last)] fault place) :
    Rejects heap (.assignment whole (.slice span target start stop) value) [given, container, first, last]
      ⟨.operation fault, place⟩
  | assigned {whole span : Span} {target start stop value : Node} {given container first last : Value}
    {length : Nat} {range : Nat × Nat} (some_ : container.changeable? heap = some length)
    (good : Value.sliceRange first last length = .ok range) (other : ∀ ref, given ≠ .array ref) :
    Rejects heap (.assignment whole (.slice span target start stop) value) [given, container, first, last]
      ⟨.operation (.mismatch (.value .array) given.kind .operand), value.span⟩
  | deleteElement {whole span place : Span} {target index : Node} {container position : Value}
    {fault : OperationFault} (astray : Value.Astray (container.changeable? heap) target.span
      [(index.span, position)] fault place) :
    Rejects heap (.deletion whole (.element span target index)) [container, position] ⟨.operation fault, place⟩
  | deleteSlice {whole span place : Span} {target start stop : Node} {container first last : Value}
    {fault : OperationFault} (astray : Value.Astray (container.changeable? heap) target.span
      [(start.span, first), (stop.span, last)] fault place) :
    Rejects heap (.deletion whole (.slice span target start stop)) [container, first, last]
      ⟨.operation fault, place⟩
  | condition {node asked : Node} {before others : List Node} {values : List Value} {value : Value}
    (split : node.conditions = before ++ asked :: others) (count : values.length = before.length)
    (other : ∀ truth, value ≠ .boolean truth) :
    Rejects heap node (values ++ [value]) ⟨.notCondition value.kind, asked.span⟩

/-- A statement fails, for its own part or with an expression. Conditions are asked as long as none holds. -/
inductive Breaks (surroundings : Surroundings σ) (node : Node) (progress : Progress σ) (fault : Fault) : Prop where
  | here {before others : List Node} {after : Progress σ} {values : List Value}
    (split : node.evaluated = before ++ others)
    (given : evalAll surroundings before progress = (.ok values, after))
    (failed : node.tag = .choice → ∀ value ∈ values.dropLast, value = .boolean false)
    (rejects : Rejects after.memory.heap node values fault) : Breaks surroundings node progress fault
  | expression {before others : List Node} {part : Node} {between : Progress σ} {values : List Value}
    (split : node.evaluated = before ++ part :: others)
    (given : evalAll surroundings before progress = (.ok values, between))
    (failed : node.tag = .choice → ∀ value ∈ values, value = .boolean false)
    (stumbles : Stumbles surroundings part between fault) : Breaks surroundings node progress fault

end Evaluation

end TabScript
