import TabScript.Proofs.Replay.Actions

/-! Statements are put together from actions and remembered expressions, one after the other.

What holds of the actions, and is kept by sequence and by the memory of expressions, holds of every
statement. -/

set_option autoImplicit false

namespace TabScript.Evaluation

variable {σ : Type}

/-- Built from actions in sequence. Only the last action of an expression may ask for a call; `inside`
tells whether the computation is the inside of an expression, and so may end with such an action. -/
inductive Composed (action : (α : Type) → Evaluation σ α → Prop) (ask : Evaluation σ Value → Prop) :
    (inside : Bool) → (α : Type) → Evaluation σ α → Prop where
  | action {inside : Bool} {α : Type} {part : Evaluation σ α} (good : action α part) :
    Composed action ask inside α part
  | ask {part : Evaluation σ Value} (good : ask part) : Composed action ask true Value part
  | bind {inside : Bool} {α β : Type} {first : Evaluation σ α} {next : α → Evaluation σ β}
    (start : Composed action ask false α first)
    (rest : ∀ value, Composed action ask inside β (next value)) :
    Composed action ask inside β (first >>= next)
  | expression {inside : Bool} {body : Evaluation σ Value} (parts : Composed action ask true Value body) :
    Composed action ask inside Value (remember body)

/-- A property of the actions that expressions in these surroundings are made of. None of them fails for
the length of the run. -/
structure Readings (surroundings : Surroundings σ) (action : (α : Type) → Evaluation σ α → Prop) :
    Prop where
  pure {α : Type} (value : α) : action α (pure value)
  fail {α : Type} (cause : Cause) (span : Span) (timely : cause ≠ .timeout) :
    action α (fail cause span)
  heap : action Heap heap
  realize (computed : Computed) : action Value (realize computed)
  lookup (span : Span) (name : String) : action Value (lookup surroundings span name)

structure Actions (surroundings : Surroundings σ) (action : (α : Type) → Evaluation σ α → Prop) :
    Prop extends Readings surroundings action where
  setHeap (changed : Heap) : action Unit (setHeap changed)
  assign (name : String) (value : Value) : action Unit (assign surroundings.scope name value)
  notifyAssign (name : Option String) (value : Value) :
    action Unit (notifyAssign surroundings name value)
  notifyMutation (container : Node) : action Unit (notifyMutation surroundings container)
  define (name : String) (parameters : List String) (body : Block) :
    action Unit (define surroundings name parameters body)

variable {surroundings : Surroundings σ} {action : (α : Type) → Evaluation σ α → Prop}
  {ask : Evaluation σ Value → Prop}

section
variable (readings : Readings surroundings action)
include readings

theorem composed_locate {inside : Bool} {α : Type} (spanOf : Culprit → Span)
    (result : Except OperationFault α) : Composed action ask inside α (locate spanOf result) := by
  cases result with
  | ok value => exact .action (readings.pure value)
  | error fault => exact .action (readings.fail _ _ (by simp))

theorem composed_computed {inside : Bool} (spanOf : Culprit → Span)
    (compute : Heap → Except OperationFault Computed) :
    Composed action ask inside Value (do
      let computed ← locate spanOf (compute (← heap))
      realize computed) :=
  .bind (.action readings.heap) fun _ =>
    .bind (composed_locate readings _ _) fun computed => .action (readings.realize computed)

variable (asks : ∀ span callee nodes function arguments,
  ask (apply surroundings span callee nodes function arguments))
include asks

-- a list of expressions uses the assumption for its items only
set_option linter.unusedSectionVars false in
mutual

theorem composed_eval : ∀ {inside : Bool} (node : Node),
    Composed action ask inside Value (eval surroundings node)
  | _, .literal _ value => by
    rw [eval]
    exact .expression (.action (readings.pure _))
  | _, .identifier span name => by
    rw [eval]
    exact .expression (.action (readings.lookup span name))
  | _, .unary _ _ _ operand => by
    rw [eval]
    exact .expression (.bind (composed_eval operand) fun _ => composed_locate readings _ _)
  | _, .binary _ _ _ left right => by
    rw [eval]
    exact .expression (.bind (composed_eval left) fun _ => .bind (composed_eval right) fun _ =>
      composed_computed readings _ _)
  | _, .call _ callee nodes => by
    rw [eval]
    exact .expression (.bind (composed_eval callee) fun _ => .bind (composed_evalAll nodes) fun _ =>
      .ask (asks _ _ _ _ _))
  | _, .element _ target index => by
    rw [eval]
    exact .expression (.bind (composed_eval target) fun _ => .bind (composed_eval index) fun _ =>
      .bind (.action readings.heap) fun _ => composed_locate readings _ _)
  | _, .slice _ target start stop => by
    rw [eval]
    exact .expression (.bind (composed_eval target) fun _ => .bind (composed_eval start) fun _ =>
      .bind (composed_eval stop) fun _ => composed_computed readings _ _)
  | _, .array _ nodes => by
    rw [eval]
    exact .expression (.bind (composed_evalAll nodes) fun _ => .action (readings.realize _))
  | _, .assignment .. | _, .choice .. | _, .loop .. | _, .definition .. | _, .result ..
  | _, .pass .. | _, .deletion .. => by
    rw [eval]
    exact .expression (.action (readings.fail _ _ (by simp)))

theorem composed_evalAll : ∀ {inside : Bool} (nodes : List Node),
    Composed action ask inside (List Value) (evalAll surroundings nodes)
  | _, [] => by
    rw [evalAll]
    exact .action (readings.pure _)
  | _, node :: nodes => by
    rw [evalAll]
    exact .bind (composed_eval node) fun _ => .bind (composed_evalAll nodes) fun _ =>
      .action (readings.pure _)

end

theorem composed_condition {inside : Bool} (node : Node) :
    Composed action ask inside Bool (condition surroundings node) := by
  refine .bind (composed_eval readings asks node) fun value => ?_
  cases value.truth? with
  | some truth => exact .action (readings.pure truth)
  | none => exact .action (readings.fail _ _ (by simp))

theorem composed_firstBranch {inside : Bool} (branches : List Branch) :
    Composed action ask inside (Option Block) (firstBranch surroundings branches) := by
  induction branches with
  | nil => exact .action (readings.pure none)
  | cons branch others ih =>
    refine .bind (composed_condition readings asks branch.condition) fun truth => ?_
    split
    · exact .action (readings.pure _)
    · exact ih

end

section
variable (actions : Actions surroundings action)
include actions

theorem composed_mutation {inside : Bool} (container : Node) (spanOf : Culprit → Span)
    (change : Heap → Except OperationFault Heap) :
    Composed action ask inside Unit (do
      setHeap (← locate spanOf (change (← heap)))
      notifyMutation surroundings container) :=
  .bind (.action actions.heap) fun _ => .bind (composed_locate actions.toReadings _ _) fun changed =>
    .bind (.action (actions.setHeap changed)) fun _ => .action (actions.notifyMutation container)

variable (asks : ∀ span callee nodes function arguments,
  ask (apply surroundings span callee nodes function arguments))
include asks

theorem composed_assignTo {inside : Bool} (target valueNode : Node) :
    Composed action ask inside Unit (assignTo surroundings target valueNode) := by
  refine .bind (composed_eval actions.toReadings asks valueNode) fun value => ?_
  cases target with
  | identifier _ name =>
    exact .bind (.action (actions.assign name value)) fun _ => .action (actions.notifyAssign _ value)
  | element _ container index =>
    exact .bind (composed_eval actions.toReadings asks container) fun _ =>
      .bind (composed_eval actions.toReadings asks index) fun _ => composed_mutation actions _ _ _
  | slice _ container start stop =>
    exact .bind (composed_eval actions.toReadings asks container) fun _ =>
      .bind (composed_eval actions.toReadings asks start) fun _ =>
        .bind (composed_eval actions.toReadings asks stop) fun _ => composed_mutation actions _ _ _
  | literal | unary | binary | call | array | assignment | choice | loop | definition | result
  | pass | deletion => exact .action (actions.fail _ _ (by simp))

theorem composed_delete {inside : Bool} (target : Node) :
    Composed action ask inside Unit (delete surroundings target) := by
  cases target with
  | element _ container index =>
    exact .bind (composed_eval actions.toReadings asks container) fun _ =>
      .bind (composed_eval actions.toReadings asks index) fun _ => composed_mutation actions _ _ _
  | slice _ container start stop =>
    exact .bind (composed_eval actions.toReadings asks container) fun _ =>
      .bind (composed_eval actions.toReadings asks start) fun _ =>
        .bind (composed_eval actions.toReadings asks stop) fun _ => composed_mutation actions _ _ _
  | literal | identifier | unary | binary | call | array | assignment | choice | loop | definition
  | result | pass | deletion => exact .action (actions.fail _ _ (by simp))

theorem composed_exec (node : Node) :
    Composed action ask false Flow (exec surroundings node) := by
  cases node with
  | assignment _ target value =>
    exact .bind (composed_assignTo actions asks target value) fun _ => .action (actions.pure _)
  | choice _ first body others otherwise =>
    refine .bind (composed_firstBranch actions.toReadings asks (.of first body :: others)) fun chosen => ?_
    split
    · exact .action (actions.pure _)
    · split <;> exact .action (actions.pure _)
  | loop _ header body =>
    refine .bind (composed_condition actions.toReadings asks header) fun truth => ?_
    split <;> exact .action (actions.pure _)
  | definition _ name parameters body =>
    exact .bind (.action (actions.define name parameters body)) fun _ => .action (actions.pure _)
  | result _ value =>
    cases value with
    | none => exact .action (actions.pure _)
    | some value => exact .bind (composed_eval actions.toReadings asks value) fun _ => .action (actions.pure _)
  | pass => exact .action (actions.pure _)
  | deletion _ target =>
    exact .bind (composed_delete actions asks target) fun _ => .action (actions.pure _)
  | literal | identifier | unary | binary | call | element | slice | array =>
    exact .bind (composed_eval actions.toReadings asks _) fun _ => .action (actions.pure _)

end

theorem steady_actions (surroundings : Surroundings σ) :
    Actions surroundings fun _ part => Steady part where
  pure := steady_pure
  fail cause span _ := steady_fail cause span
  heap := steady_heap
  realize := steady_realize
  lookup := steady_lookup surroundings
  setHeap := steady_setHeap
  assign := steady_assign surroundings.scope
  notifyAssign := steady_notifyAssign surroundings
  notifyMutation := steady_notifyMutation surroundings
  define := steady_define surroundings

end TabScript.Evaluation
