import TabScript.Machine.Evaluation

/-! Execution of one statement, up to the blocks inside it. -/

set_option autoImplicit false

namespace TabScript

/-- How things go on after a statement: with the next one, with a block inside it first, or with
the caller. -/
inductive Flow where
  | next
  | enter (activity : Activity)
  | leave (value : Value)

namespace Evaluation

variable {σ : Type}

def notifyAssign (surroundings : Surroundings σ) (name : Option String) (value : Value) :
    Evaluation σ Unit := do
  if surroundings.wants .assign then
    let memory := (← get).memory
    emit (.assign name (value.toJson memory.heap)
      (memory.scopes.snapshot memory.heap surroundings.scope))

def rootName? : Node → Option String
  | .identifier _ name => some name
  | .element _ target _ => rootName? target
  | .slice _ target _ _ => rootName? target
  | _ => none

def notifyMutation (surroundings : Surroundings σ) (container : Node) : Evaluation σ Unit := do
  let name := rootName? container
  let found := name.bind ((← get).memory.scopes.lookup surroundings.scope)
  notifyAssign surroundings name (found.getD .none)

def condition (surroundings : Surroundings σ) (node : Node) : Evaluation σ Bool := do
  let value ← eval surroundings node
  match value.truth? with
  | some truth => return truth
  | none => fail (.notCondition value.kind) node.span

def firstBranch (surroundings : Surroundings σ) : List Branch → Evaluation σ (Option Block)
  | [] => return none
  | branch :: others => do
    if ← condition surroundings branch.condition then
      return some branch.body
    else
      firstBranch surroundings others

/-- Assigns to a variable, an element or a slice. The value is evaluated first. -/
def assignTo (surroundings : Surroundings σ) (target valueNode : Node) : Evaluation σ Unit := do
  let value ← eval surroundings valueNode
  match target with
  | .identifier _ name =>
    assign surroundings.scope name value
    notifyAssign surroundings (some name) value
  | .element span container index =>
    let root ← eval surroundings container
    let position ← eval surroundings index
    setHeap (← locate (elementSpan span container index)
      (Value.setElement (← heap) root position value))
    notifyMutation surroundings container
  | .slice span container start stop =>
    let root ← eval surroundings container
    let first ← eval surroundings start
    let last ← eval surroundings stop
    let spanOf (culprit : Culprit) : Span :=
      if culprit = .operand then valueNode.span else sliceSpan span container start stop culprit
    setHeap (← locate spanOf (Value.setSlice (← heap) root first last value))
    notifyMutation surroundings container
  | other => fail .unassignableTarget other.span

def delete (surroundings : Surroundings σ) (target : Node) : Evaluation σ Unit := do
  match target with
  | .element span container index =>
    let root ← eval surroundings container
    let position ← eval surroundings index
    setHeap (← locate (elementSpan span container index)
      (Value.deleteElement (← heap) root position))
    notifyMutation surroundings container
  | .slice span container start stop =>
    let root ← eval surroundings container
    let first ← eval surroundings start
    let last ← eval surroundings stop
    setHeap (← locate (sliceSpan span container start stop)
      (Value.deleteSlice (← heap) root first last))
    notifyMutation surroundings container
  | other => fail .undeletableTarget other.span

/-- Makes a function of the program and binds it. Its scope must be kept from now on. -/
def define (surroundings : Surroundings σ) (name : String) (parameters : List String)
    (body : Block) : Evaluation σ Unit := do
  let scope := surroundings.scope
  let (identity, memory) := (← get).memory.identify
  modify fun progress =>
    { progress with memory := { memory with scopes := memory.scopes.capture scope } }
  let function := Value.function (.closure ⟨name, parameters, body.statements, scope, identity⟩)
  assign scope name function
  notifyAssign surroundings (some name) function

/-- Runs a statement. An expression is evaluated and its value dropped. -/
def exec (surroundings : Surroundings σ) (node : Node) : Evaluation σ Flow := do
  match node with
  | .assignment _ target value =>
    assignTo surroundings target value
    return .next
  | .choice _ first body others otherwise =>
    match ← firstBranch surroundings (.of first body :: others) with
    | some block => return .enter (.block block.statements surroundings.scope)
    | none =>
      match otherwise with
      | some block => return .enter (.block block.statements surroundings.scope)
      | none => return .next
  | .loop _ header body =>
    if ← condition surroundings header then
      return .enter (.round body.statements surroundings.scope node)
    else
      return .next
  | .definition _ name parameters body =>
    define surroundings name parameters body
    return .next
  | .result _ value =>
    match value with
    | some node => return .leave (← eval surroundings node)
    | none => return .leave .none
  | .pass _ => return .next
  | .deletion _ target =>
    delete surroundings target
    return .next
  | expression =>
    let _ ← eval surroundings expression
    return .next

end Evaluation

end TabScript
