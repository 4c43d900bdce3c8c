import TabScript.Proofs.Reference.Run
import TabScript.Proofs.Replay.Course

/-! The direct style follows the plans of its statements.

A plan is carried out by running every call that it asks for. The evaluation of an expression in the
direct style is its plan carried out in this way, and a statement is its plan and what comes after. -/

set_option autoImplicit false

namespace TabScript

variable {σ α β : Type}

theorem Direct.bind_apply (first : Direct σ α) (next : α → Direct σ β) (tally : Tally σ) :
    (first >>= next) tally =
      match first tally with
      | none => none
      | some (.ok value, later) => next value later
      | some (.error fault, later) => some (.error fault, later) := by
  change (first tally).bind (fun reached => ExceptT.bindCont next reached.1 reached.2) = _
  rcases first tally with _ | ⟨_ | _, later⟩ <;> rfl

theorem Direct.pure_apply (value : α) (tally : Tally σ) :
    (pure value : Direct σ α) tally = some (.ok value, tally) := rfl

section
variable (call : Closure → List Value → Direct σ Value)

def Course.complete : Course σ α → Nat → Option (Except Fault α × Tally σ)
  | done outcome world, executed => some (outcome, ⟨world, executed⟩)
  | Course.call closure arguments world resume, executed =>
    match call closure arguments ⟨world, executed⟩ with
    | none => none
    | some (.ok value, later) => (resume value later.world).complete later.executed
    | some (.error fault, later) => some (.error fault, later)

namespace Plan

def direct (plan : Plan σ α) : Direct σ α := fun tally =>
  (plan tally.world).complete call tally.executed

theorem direct_pure (value : α) : direct call (pure value : Plan σ α) = pure value := rfl

theorem direct_bind (plan : Plan σ α) (next : α → Plan σ β) :
    direct call (plan >>= next) = direct call plan >>= fun value => direct call (next value) := by
  funext tally
  rw [Direct.bind_apply]
  change ((plan tally.world).bind next).complete call tally.executed = _
  unfold direct
  generalize tally.executed = executed
  induction plan tally.world generalizing executed with
  | done outcome world => cases outcome <;> rfl
  | call closure arguments world resume ih =>
    simp only [Course.bind, Course.complete]
    rcases call closure arguments ⟨world, executed⟩ with _ | ⟨_ | value, later⟩
    · rfl
    · rfl
    · exact ih value later.world later.executed

theorem direct_act (action : Evaluation σ α) : direct call (act action) = Direct.act action := by
  funext tally
  unfold direct act Direct.act
  rcases action (tally.world.progress .fresh) with ⟨(_ | _) | _, after⟩ <;> rfl

theorem direct_request (action : Evaluation σ Value) :
    direct call (request action) = Direct.request call action := by
  funext tally
  unfold direct request Direct.request
  rcases action (tally.world.progress .fresh) with ⟨(_ | ⟨closure, arguments⟩) | _, after⟩
  · rfl
  · simp only [Course.complete]
    rcases call closure arguments ⟨after.world, tally.executed⟩ with _ | ⟨_ | _, later⟩ <;> rfl
  · rfl

variable (surroundings : Surroundings σ)

mutual

theorem direct_eval : ∀ node : Node,
    direct call (manner.eval surroundings node) = (Direct.inPlace call).eval surroundings node
  | .literal _ value => by
    rw [Manner.eval, Manner.eval, direct_pure]
  | .identifier span name => by
    rw [Manner.eval, Manner.eval]
    exact direct_act call _
  | .unary _ operator operatorSpan operand => by
    rw [Manner.eval, Manner.eval, direct_bind, direct_eval operand]
    congr 1
    funext value
    exact direct_act call _
  | .binary _ operator operatorSpan left right => by
    rw [Manner.eval, Manner.eval, direct_bind, direct_eval left]
    congr 1
    funext first
    rw [direct_bind, direct_eval right]
    congr 1
    funext second
    exact direct_act call _
  | .call span callee nodes => by
    rw [Manner.eval, Manner.eval, direct_bind, direct_eval callee]
    congr 1
    funext function
    rw [direct_bind, direct_evalAll nodes]
    congr 1
    funext arguments
    exact direct_request call _
  | .element span target index => by
    rw [Manner.eval, Manner.eval, direct_bind, direct_eval target]
    congr 1
    funext container
    rw [direct_bind, direct_eval index]
    congr 1
    funext position
    exact direct_act call _
  | .slice span target start stop => by
    rw [Manner.eval, Manner.eval, direct_bind, direct_eval target]
    congr 1
    funext container
    rw [direct_bind, direct_eval start]
    congr 1
    funext first
    rw [direct_bind, direct_eval stop]
    congr 1
    funext last
    exact direct_act call _
  | .array _ nodes => by
    rw [Manner.eval, Manner.eval, direct_bind, direct_evalAll nodes]
    congr 1
  | .assignment .. | .choice .. | .loop .. | .definition .. | .result .. | .pass .. | .deletion .. => by
    rw [Manner.eval, Manner.eval]
    exact direct_act call (Evaluation.fail .statementAsValue _)

theorem direct_evalAll : ∀ nodes : List Node,
    direct call (manner.evalAll surroundings nodes) =
      (Direct.inPlace call).evalAll surroundings nodes
  | [] => by
    rw [Manner.evalAll, Manner.evalAll, direct_pure]
  | node :: nodes => by
    rw [Manner.evalAll, Manner.evalAll, direct_bind, direct_eval node]
    congr 1
    funext value
    rw [direct_bind, direct_evalAll nodes]
    rfl

end

theorem direct_condition (node : Node) :
    direct call (manner.condition surroundings node) =
      (Direct.inPlace call).condition surroundings node := by
  unfold Manner.condition
  rw [direct_bind, direct_eval]
  congr 1
  funext value
  cases value.truth? with
  | some truth => exact direct_pure call truth
  | none => exact direct_act call (Evaluation.fail _ _)

theorem direct_firstBranch (branches : List Branch) :
    direct call (manner.firstBranch surroundings branches) =
      (Direct.inPlace call).firstBranch surroundings branches := by
  induction branches with
  | nil => exact direct_pure call none
  | cons branch others ih =>
    rw [Manner.firstBranch, Manner.firstBranch, direct_bind, direct_condition]
    congr 1
    funext truth
    cases truth with
    | true => exact direct_pure call (some branch.body)
    | false => exact ih

theorem direct_assignTo (target valueNode : Node) :
    direct call (manner.assignTo surroundings target valueNode) =
      (Direct.inPlace call).assignTo surroundings target valueNode := by
  unfold Manner.assignTo
  rw [direct_bind, direct_eval]
  congr 1
  funext value
  cases target with
  | identifier _ name => exact direct_act call _
  | element span container index =>
    simp only [direct_bind, direct_eval]
    congr 1
    funext root
    congr 1
    funext position
    exact direct_act call _
  | slice span container start stop =>
    simp only [direct_bind, direct_eval]
    congr 1
    funext root
    congr 1
    funext first
    congr 1
    funext last
    exact direct_act call _
  | literal | unary | binary | call | array | assignment | choice | loop | definition | result
  | pass | deletion => exact direct_act call (Evaluation.fail .unassignableTarget _)

theorem direct_delete (target : Node) :
    direct call (manner.delete surroundings target) =
      (Direct.inPlace call).delete surroundings target := by
  unfold Manner.delete
  cases target with
  | element span container index =>
    simp only [direct_bind, direct_eval]
    congr 1
    funext root
    congr 1
    funext position
    exact direct_act call _
  | slice span container start stop =>
    simp only [direct_bind, direct_eval]
    congr 1
    funext root
    congr 1
    funext first
    congr 1
    funext last
    exact direct_act call _
  | literal | identifier | unary | binary | call | array | assignment | choice | loop | definition
  | result | pass | deletion => exact direct_act call (Evaluation.fail .undeletableTarget _)

end Plan

end

namespace Direct

def Below (first second : Direct σ α) : Prop :=
  ∀ tally result, first tally = some result → second tally = some result

theorem Below.refl (part : Direct σ α) : part.Below part := fun _ _ reached => reached

theorem Below.trans {first second third : Direct σ α} (start : first.Below second)
    (rest : second.Below third) : first.Below third := fun tally result reached =>
  rest tally result (start tally result reached)

theorem Below.bind {first second : Direct σ α} {next later : α → Direct σ β}
    (start : first.Below second) (rest : ∀ value, (next value).Below (later value)) :
    (first >>= next).Below (second >>= later) := by
  intro tally result reached
  rw [bind_apply] at reached ⊢
  cases ended : first tally with
  | none =>
    rw [ended] at reached
    cases reached
  | some found =>
    rw [start tally found ended]
    rw [ended] at reached
    obtain ⟨_ | value, between⟩ := found
    · exact reached
    · exact rest value between result reached

theorem Below.direct {call other : Closure → List Value → Direct σ Value}
    (calls : ∀ closure arguments, (call closure arguments).Below (other closure arguments))
    (plan : Plan σ α) : (plan.direct call).Below (plan.direct other) := by
  intro tally result reached
  unfold Plan.direct at reached ⊢
  generalize tally.executed = executed at reached ⊢
  generalize plan tally.world = course at reached ⊢
  induction course generalizing executed with
  | done outcome world => exact reached
  | call closure arguments world resume ih =>
    rw [Course.complete] at reached ⊢
    cases ended : call closure arguments ⟨world, executed⟩ with
    | none =>
      rw [ended] at reached
      cases reached
    | some found =>
      rw [calls closure arguments _ _ ended]
      rw [ended] at reached
      obtain ⟨_ | value, later⟩ := found
      · exact reached
      · exact ih value later.world later.executed reached

variable (wants : EventKind → Bool) (hosts : Array (HostFunction σ))

/-- A piece of work from its beginning: a loop looks at its condition again after each round. -/
def work (budget : Nat) (activity : Activity) : Direct σ Ending :=
  match activity.work, activity.sequel with
  | .statements nodes, .recheck loop => do
    match ← block wants hosts budget activity.scope nodes with
    | .next => statement wants hosts budget activity.scope loop
    | .returned value span => return .returned value span
  | .statements nodes, _ => block wants hosts budget activity.scope nodes
  | .header loop, _ => statement wants hosts budget activity.scope loop

def pursue (budget : Nat) (node : Node) : Flow → Direct σ Ending
  | .next => return .next
  | .enter inner => work wants hosts budget inner
  | .leave value => return .returned value node.span

theorem statement_eq (budget : Nat) (scope : ScopeId) (node : Node) :
    statement wants hosts (budget + 1) scope node =
      (do
        count
        let flow ← (Plan.exec ⟨scope, wants, hosts⟩ node).direct (call wants hosts budget)
        pursue wants hosts budget node flow) := by
  rw [statement]
  congr 1
  funext counted
  cases node with
  | assignment span target value =>
    simp only [Plan.exec, Plan.direct_bind, Plan.direct_assignTo, bind_assoc]
    rfl
  | choice span first body others otherwise =>
    simp only [Plan.exec, Plan.direct_bind, Plan.direct_firstBranch, bind_assoc]
    congr 1
    funext chosen
    cases chosen with
    | some chosen => rfl
    | none => cases otherwise <;> rfl
  | loop span header body =>
    simp only [Plan.exec, Plan.direct_bind, Plan.direct_condition, bind_assoc]
    congr 1
    funext truth
    cases truth <;> rfl
  | definition span name parameters body =>
    simp only [Plan.exec, Plan.direct_bind, Plan.direct_act, bind_assoc]
    rfl
  | result span value =>
    cases value with
    | none => rfl
    | some value =>
      simp only [Plan.exec, Plan.direct_bind, Plan.direct_eval, bind_assoc]
      rfl
  | pass span => rfl
  | deletion span target =>
    simp only [Plan.exec, Plan.direct_bind, Plan.direct_delete, bind_assoc]
    rfl
  | literal | identifier | unary | binary | call | element | slice | array =>
    simp only [Plan.exec, Plan.direct_bind, Plan.direct_eval, bind_assoc]
    rfl

structure Grows (budget larger : Nat) : Prop where
  call (closure : Closure) (arguments : List Value) :
    (call wants hosts budget closure arguments).Below (call wants hosts larger closure arguments)
  block (scope : ScopeId) (nodes : List Node) :
    (block wants hosts budget scope nodes).Below (block wants hosts larger scope nodes)
  statement (scope : ScopeId) (node : Node) :
    (statement wants hosts budget scope node).Below (statement wants hosts larger scope node)

variable {wants : EventKind → Bool} {hosts : Array (HostFunction σ)}

theorem Grows.work {budget larger : Nat} (grows : Grows wants hosts budget larger)
    (activity : Activity) :
    (work wants hosts budget activity).Below (work wants hosts larger activity) := by
  unfold Direct.work
  split
  · refine (grows.block _ _).bind fun ending => ?_
    cases ending with
    | next => exact grows.statement _ _
    | returned value span => exact .refl _
  · exact grows.block _ _
  · exact grows.statement _ _

theorem Grows.pursue {budget larger : Nat} (grows : Grows wants hosts budget larger) (node : Node)
    (flow : Flow) :
    (pursue wants hosts budget node flow).Below (pursue wants hosts larger node flow) := by
  cases flow with
  | next => exact .refl _
  | enter inner => exact grows.work inner
  | leave value => exact .refl _

theorem grows_succ (budget : Nat) : Grows wants hosts budget (budget + 1) := by
  induction budget with
  | zero =>
    constructor
    · intro closure arguments tally result reached
      rw [Direct.call] at reached
      cases reached
    · intro scope nodes tally result reached
      rw [Direct.block] at reached
      cases reached
    · intro scope node tally result reached
      rw [Direct.statement] at reached
      cases reached
  | succ budget ih =>
    constructor
    · intro closure arguments
      rw [Direct.call, Direct.call]
      refine (Below.refl _).bind fun scope => ?_
      exact (ih.block _ _).bind fun ending => .refl _
    · intro scope nodes
      cases nodes with
      | nil => exact .refl _
      | cons node nodes =>
        rw [Direct.block, Direct.block]
        refine (ih.statement _ _).bind fun ending => ?_
        cases ending with
        | next => exact ih.block _ _
        | returned value span => exact .refl _
    · intro scope node
      rw [statement_eq, statement_eq]
      refine (Below.refl _).bind fun counted => ?_
      refine (Below.direct ih.call _).bind fun flow => ?_
      exact ih.pursue node flow

end Direct

end TabScript
