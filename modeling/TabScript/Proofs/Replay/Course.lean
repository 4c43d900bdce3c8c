import TabScript.Proofs.Reference.Manner

/-! Evaluation as a tree of the calls it asks for.

A course is what an evaluation does from one state of the world: it ends, or it needs the result of a
function of the program and goes on from there, in whatever world the call leaves behind. A plan gives
a course for every world. -/

set_option autoImplicit false

namespace TabScript

variable {σ α β : Type}

inductive Course (σ α : Type) where
  | done (outcome : Except Fault α) (world : World σ)
  | call (closure : Closure) (arguments : List Value) (world : World σ)
      (resume : Value → World σ → Course σ α)

def Course.bind (next : α → World σ → Course σ β) : Course σ α → Course σ β
  | done (.ok value) world => next value world
  | done (.error fault) world => done (.error fault) world
  | call closure arguments world resume =>
    call closure arguments world fun value later => bind next (resume value later)

def Plan (σ α : Type) : Type := World σ → Course σ α

namespace Plan

instance : Monad (Plan σ) where
  pure value world := .done (.ok value) world
  bind first next world := (first world).bind next

def act (action : Evaluation σ α) : Plan σ α := fun world =>
  match action (world.progress .fresh) with
  | (.ok value, after) => .done (.ok value) after.world
  | (.error (.fail fault), after) => .done (.error fault) after.world
  -- Nothing that is carried out in this way asks for a call.
  | (.error (.suspend ..), after) => .done (.error ⟨.statementAsValue, default⟩) after.world

def request (action : Evaluation σ Value) : Plan σ Value := fun world =>
  match action (world.progress .fresh) with
  | (.ok value, after) => .done (.ok value) after.world
  | (.error (.fail fault), after) => .done (.error fault) after.world
  | (.error (.suspend closure arguments), after) =>
    .call closure arguments after.world fun value later => .done (.ok value) later

def manner : Manner σ (Plan σ) := ⟨act, request⟩

def exec (surroundings : Surroundings σ) (node : Node) : Plan σ Flow :=
  match node with
  | .assignment _ target value => do
    manner.assignTo surroundings target value
    return .next
  | .choice _ first body others otherwise => do
    match ← manner.firstBranch surroundings (.of first body :: others) with
    | some block => return .enter (.block block.statements surroundings.scope)
    | none =>
      match otherwise with
      | some block => return .enter (.block block.statements surroundings.scope)
      | none => return .next
  | .loop _ header body => do
    if ← manner.condition surroundings header then
      return .enter (.round body.statements surroundings.scope node)
    else
      return .next
  | .definition _ name parameters body => do
    act (Evaluation.define surroundings name parameters body)
    return .next
  | .result _ (some value) => return .leave (← manner.eval surroundings value)
  | .result _ none => return .leave .none
  | .pass _ => return .next
  | .deletion _ target => do
    manner.delete surroundings target
    return .next
  | expression => do
    let _ ← manner.eval surroundings expression
    return .next

end Plan

end TabScript
