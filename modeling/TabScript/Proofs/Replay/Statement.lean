import TabScript.Proofs.Replay.Actions

/-! Statements follow their plans.

Evaluated with a memory, left at a call and evaluated again from the start when its result is there, a
statement does what its plan says, one call after the other. -/

set_option autoImplicit false

namespace TabScript.Evaluation

variable {σ α β : Type}

theorem Logged.remember {first : Evaluation σ α} {next : α → Evaluation σ Value} {plan : Plan σ α}
    {planNext : α → Plan σ Value} (start : Logged first plan)
    (rest : ∀ value, Carried Immediate (next value) (planNext value)) :
    Logged (Evaluation.remember (first >>= next)) (plan >>= planNext) :=
  (start.carried rest).remember

mutual

theorem logged_eval (surroundings : Surroundings σ) : ∀ node : Node,
    Logged (eval surroundings node) (Plan.manner.eval surroundings node)
  | .literal _ value => by
    rw [eval, Manner.eval]
    exact Carried.remember fun _ _ => ⟨[], trivial, fun _ => by simp [pure_apply]⟩
  | .identifier span name => by
    rw [eval, Manner.eval]
    exact (steady_lookup surroundings span name).carried.remember
  | .unary _ operator operatorSpan operand => by
    rw [eval, Manner.eval]
    exact (logged_eval surroundings operand).remember fun _ => (steady_locate _ _).carried
  | .binary _ operator operatorSpan left right => by
    rw [eval, Manner.eval]
    refine (logged_eval surroundings left).remember fun _ => ?_
    refine (logged_eval surroundings right).carried fun _ => Steady.carried ?_
    exact steady_heap.bind fun _ => (steady_locate _ _).bind fun _ => steady_realize _
  | .call span callee nodes => by
    rw [eval, Manner.eval]
    refine (logged_eval surroundings callee).remember fun _ => ?_
    exact (logged_evalAll surroundings nodes).carried fun _ => carried_request (detached_apply _ _ _ _ _ _)
  | .element span target index => by
    rw [eval, Manner.eval]
    refine (logged_eval surroundings target).remember fun _ => ?_
    refine (logged_eval surroundings index).carried fun _ => Steady.carried ?_
    exact steady_heap.bind fun _ => steady_locate _ _
  | .slice span target start stop => by
    rw [eval, Manner.eval]
    refine (logged_eval surroundings target).remember fun _ => ?_
    refine (logged_eval surroundings start).carried fun _ => ?_
    refine (logged_eval surroundings stop).carried fun _ => Steady.carried ?_
    exact steady_heap.bind fun _ => (steady_locate _ _).bind fun _ => steady_realize _
  | .array _ nodes => by
    rw [eval, Manner.eval]
    exact (logged_evalAll surroundings nodes).remember fun _ => (steady_realize _).carried
  | .assignment .. | .choice .. | .loop .. | .definition .. | .result .. | .pass .. | .deletion .. => by
    rw [eval, Manner.eval]
    exact (steady_fail _ _).carried.remember

theorem logged_evalAll (surroundings : Surroundings σ) : ∀ nodes : List Node,
    Logged (evalAll surroundings nodes) (Plan.manner.evalAll surroundings nodes)
  | [] => by
    rw [evalAll, Manner.evalAll]
    exact logged_pure []
  | node :: nodes => by
    rw [evalAll, Manner.evalAll]
    refine (logged_eval surroundings node).bind fun value => ?_
    exact (logged_evalAll surroundings nodes).bind fun values => logged_pure (value :: values)

end

theorem logged_condition (surroundings : Surroundings σ) (node : Node) :
    Logged (condition surroundings node) (Plan.manner.condition surroundings node) := by
  refine (logged_eval surroundings node).bind fun value => ?_
  cases value.truth? with
  | some truth => exact logged_pure truth
  | none => exact logged_fail (steady_fail _ _).detached fun _ => rfl

theorem logged_firstBranch (surroundings : Surroundings σ) (branches : List Branch) :
    Logged (firstBranch surroundings branches)
      (Plan.manner.firstBranch surroundings branches) := by
  induction branches with
  | nil => exact logged_pure none
  | cons branch others ih =>
    refine (logged_condition surroundings branch.condition).bind fun truth => ?_
    split
    · exact logged_pure _
    · exact ih

/-- The computation follows the plan and asks for no call as its last act. -/
abbrev Follows (part : Evaluation σ α) (plan : Plan σ α) : Prop :=
  Carried (fun _ => False) part plan

theorem follows_mutation (surroundings : Surroundings σ) (container : Node)
    (spanOf : Culprit → Span) (change : Heap → Except OperationFault Heap) :
    Follows (do
      setHeap (← locate spanOf (change (← heap)))
      notifyMutation surroundings container)
      (Plan.act do
        setHeap (← locate spanOf (change (← heap)))
        notifyMutation surroundings container) := by
  refine Steady.carried (steady_heap.bind fun _ => (steady_locate _ _).bind fun _ => ?_)
  exact (steady_setHeap _).bind fun _ => steady_notifyMutation _ _

theorem follows_assignTo (surroundings : Surroundings σ) (target valueNode : Node) :
    Follows (assignTo surroundings target valueNode)
      (Plan.manner.assignTo surroundings target valueNode) := by
  refine (logged_eval surroundings valueNode).carried fun value => ?_
  cases target with
  | identifier =>
    exact ((steady_assign _ _ _).bind fun _ => steady_notifyAssign _ _ _).carried
  | element _ container index =>
    refine (logged_eval surroundings container).carried fun _ => ?_
    exact (logged_eval surroundings index).carried fun _ => follows_mutation _ _ _ _
  | slice _ container start stop =>
    refine (logged_eval surroundings container).carried fun _ => ?_
    refine (logged_eval surroundings start).carried fun _ => ?_
    exact (logged_eval surroundings stop).carried fun _ => follows_mutation _ _ _ _
  | literal | unary | binary | call | array | assignment | choice | loop | definition | result
  | pass | deletion => exact (steady_fail _ _).carried

theorem follows_delete (surroundings : Surroundings σ) (target : Node) :
    Follows (delete surroundings target) (Plan.manner.delete surroundings target) := by
  cases target with
  | element _ container index =>
    refine (logged_eval surroundings container).carried fun _ => ?_
    exact (logged_eval surroundings index).carried fun _ => follows_mutation _ _ _ _
  | slice _ container start stop =>
    refine (logged_eval surroundings container).carried fun _ => ?_
    refine (logged_eval surroundings start).carried fun _ => ?_
    exact (logged_eval surroundings stop).carried fun _ => follows_mutation _ _ _ _
  | literal | identifier | unary | binary | call | array | assignment | choice | loop | definition
  | result | pass | deletion => exact (steady_fail _ _).carried

theorem follows_pure (value : α) : Follows (pure value : Evaluation σ α) (pure value) :=
  fun _ _ => ⟨[], trivial, fun _ => by simp [pure_apply]⟩

theorem follows_exec (surroundings : Surroundings σ) (node : Node) :
    Follows (exec surroundings node) (Plan.exec surroundings node) := by
  cases node with
  | assignment _ target value =>
    exact (follows_assignTo surroundings target value).map fun _ => Flow.next
  | choice _ first body others otherwise =>
    refine (logged_firstBranch surroundings (.of first body :: others)).carried fun chosen => ?_
    split
    · exact follows_pure _
    · split <;> exact follows_pure _
  | loop span header body =>
    refine (logged_condition surroundings header).carried fun truth => ?_
    split <;> exact follows_pure _
  | definition _ name parameters body =>
    exact (steady_define surroundings name parameters body).carried.map fun _ => Flow.next
  | result _ value =>
    cases value with
    | none => exact follows_pure _
    | some value => exact (logged_eval surroundings value).carried fun _ => follows_pure _
  | pass => exact follows_pure _
  | deletion _ target => exact (follows_delete surroundings target).map fun _ => Flow.next
  | literal | identifier | unary | binary | call | element | slice | array =>
    exact (logged_eval surroundings _).carried fun _ => follows_pure _

end TabScript.Evaluation
