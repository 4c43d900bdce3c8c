import TabScript.Machine.Execution

/-! Expressions evaluated strictly from left to right, without a memory of finished parts.

The evaluation is written once for all monads. A manner says how the actions of a statement are
carried out in one of them, and what happens where a function of the program is called. -/

set_option autoImplicit false

namespace TabScript

variable {σ α : Type}

/-- What a statement acts on, apart from the memory of its own evaluation. The last event and the
last call come first. -/
structure World (σ : Type) where
  memory : Memory
  host : σ
  events : List Event
  calls : List HostCall

def World.progress (world : World σ) (replay : Replay) : Progress σ :=
  ⟨world.memory, replay, world.host, world.events, world.calls⟩

def Progress.world (progress : Progress σ) : World σ :=
  ⟨progress.memory, progress.host, progress.events, progress.calls⟩

@[simp] theorem World.world_progress (world : World σ) (replay : Replay) :
    (world.progress replay).world = world := rfl

@[simp] theorem World.replay_progress (world : World σ) (replay : Replay) :
    (world.progress replay).replay = replay := rfl

@[simp] theorem World.memory_progress (world : World σ) (replay : Replay) :
    (world.progress replay).memory = world.memory := rfl

@[simp] theorem Progress.progress_world (progress : Progress σ) :
    progress.world.progress progress.replay = progress := rfl

/-- How the parts of a direct evaluation are carried out: actions on the world, and requests, which
are actions that may ask for the result of a function of the program. -/
structure Manner (σ : Type) (M : Type → Type) where
  act {α : Type} : Evaluation σ α → M α
  request : Evaluation σ Value → M Value

namespace Manner

variable {M : Type → Type} [Monad M] (manner : Manner σ M) (surroundings : Surroundings σ)

open Evaluation (locate elementSpan sliceSpan realize heap setHeap)

mutual

def eval : Node → M Value
  | .literal _ value => return .ofLiteral value
  | .identifier span name => manner.act (Evaluation.lookup surroundings span name)
  | .unary _ operator operatorSpan operand => do
    let value ← eval operand
    manner.act (locate (fun culprit => if culprit = .operator then operatorSpan else operand.span)
      (value.unary operator))
  | .binary _ operator operatorSpan left right => do
    let first ← eval left
    let second ← eval right
    manner.act do
      let computed ← locate
        (fun
          | .operator => operatorSpan
          | .target => left.span
          | _ => right.span)
        (Value.binary (← heap) operator first second)
      realize computed
  | .call span callee nodes => do
    let function ← eval callee
    let arguments ← evalAll nodes
    manner.request (Evaluation.apply surroundings span callee nodes function arguments)
  | .element span target index => do
    let container ← eval target
    let position ← eval index
    manner.act do
      locate (elementSpan span target index) (Value.element (← heap) container position)
  | .slice span target start stop => do
    let container ← eval target
    let first ← eval start
    let last ← eval stop
    manner.act do
      let computed ← locate (sliceSpan span target start stop)
        (Value.slice (← heap) container first last)
      realize computed
  | .array _ nodes => do
    let values ← evalAll nodes
    manner.act (realize (.items values))
  | .assignment span _ _ | .choice span _ _ _ _ | .loop span _ _ | .definition span _ _ _
  | .result span _ | .pass span | .deletion span _ =>
    manner.act (Evaluation.fail .statementAsValue span)

def evalAll : List Node → M (List Value)
  | [] => return []
  | node :: nodes => do
    let value ← eval node
    let values ← evalAll nodes
    return value :: values

end

def condition (node : Node) : M Bool := do
  let value ← manner.eval surroundings node
  match value.truth? with
  | some truth => return truth
  | none => manner.act (Evaluation.fail (.notCondition value.kind) node.span)

def firstBranch : List Branch → M (Option Block)
  | [] => return none
  | branch :: others => do
    if ← manner.condition surroundings branch.condition then
      return some branch.body
    else
      firstBranch others

def assignTo (target valueNode : Node) : M Unit := do
  let value ← manner.eval surroundings valueNode
  match target with
  | .identifier _ name =>
    manner.act do
      Evaluation.assign surroundings.scope name value
      Evaluation.notifyAssign surroundings (some name) value
  | .element span container index =>
    let root ← manner.eval surroundings container
    let position ← manner.eval surroundings index
    manner.act do
      setHeap (← locate (elementSpan span container index)
        (Value.setElement (← heap) root position value))
      Evaluation.notifyMutation surroundings container
  | .slice span container start stop =>
    let root ← manner.eval surroundings container
    let first ← manner.eval surroundings start
    let last ← manner.eval surroundings stop
    let spanOf (culprit : Culprit) : Span :=
      if culprit = .operand then valueNode.span else sliceSpan span container start stop culprit
    manner.act do
      setHeap (← locate spanOf (Value.setSlice (← heap) root first last value))
      Evaluation.notifyMutation surroundings container
  | other => manner.act (Evaluation.fail .unassignableTarget other.span)

def delete (target : Node) : M Unit := do
  match target with
  | .element span container index =>
    let root ← manner.eval surroundings container
    let position ← manner.eval surroundings index
    manner.act do
      setHeap (← locate (elementSpan span container index)
        (Value.deleteElement (← heap) root position))
      Evaluation.notifyMutation surroundings container
  | .slice span container start stop =>
    let root ← manner.eval surroundings container
    let first ← manner.eval surroundings start
    let last ← manner.eval surroundings stop
    manner.act do
      setHeap (← locate (sliceSpan span container start stop)
        (Value.deleteSlice (← heap) root first last))
      Evaluation.notifyMutation surroundings container
  | other => manner.act (Evaluation.fail .undeletableTarget other.span)

end Manner

end TabScript
