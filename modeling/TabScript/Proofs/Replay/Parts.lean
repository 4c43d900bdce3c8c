import TabScript.Proofs.Culprits.Stages

/-! The expressions that a statement evaluates.

A statement evaluates expressions one after the other, as long as it goes on, and does something with their values. So
does an expression with its parts. What they do with the values has no memory of its own, and only a call can ask
for a function of the program to run. -/

set_option autoImplicit false

namespace TabScript

variable {σ α : Type}

namespace Node

def asked : Node → List Node
  | .assignment _ target value => value :: if target.isAssignable then target.operands else []
  | .deletion _ target => if target.tag = .subscript then target.operands else []
  | .choice _ condition _ others _ => condition :: others.map Branch.condition
  | .loop _ condition _ => [condition]
  | .result _ value => value.toList
  | .pass _ | .definition .. => []
  | expression => [expression]

/-- Whether a statement goes on to its next expression after this value: a choice does so as long as no condition
holds. -/
def goesOn : Node → Value → Bool
  | .choice .., value => value.truth? == some false
  | _, _ => true

end Node

namespace Evaluation

variable {surroundings : Surroundings σ}

def evalWhile (surroundings : Surroundings σ) (goesOn : Value → Bool) : List Node → Evaluation σ (List Value)
  | [] => return []
  | node :: nodes => do
    let value ← eval surroundings node
    if goesOn value then
      return value :: (← evalWhile surroundings goesOn nodes)
    else
      return [value]

theorem evalAll_eq_evalWhile (nodes : List Node) :
    evalAll surroundings nodes = evalWhile surroundings (fun _ => true) nodes := by
  induction nodes with
  | nil => rw [evalAll, evalWhile]
  | cons node nodes ih =>
    rw [evalAll, evalWhile, ih]
    rfl

def choose : List Branch → List Value → Evaluation σ (Option Block)
  | branch :: others, value :: values =>
    match value.truth? with
    | some true => return some branch.body
    | some false => choose others values
    | none => fail (.notCondition value.kind) branch.condition.span
  | _, _ => return none

theorem steady_choose (branches : List Branch) (values : List Value) :
    Steady (choose branches values : Evaluation σ (Option Block)) := by
  fun_induction choose branches values with
  | case1 => exact steady_pure _
  | case2 _ _ _ _ _ ih => exact ih
  | case3 => exact steady_fail _ _
  | case4 => exact steady_pure _

theorem firstBranch_eq (branches : List Branch) :
    firstBranch surroundings branches =
      evalWhile surroundings (fun value => value.truth? == some false) (branches.map Branch.condition) >>=
        choose branches := by
  induction branches with
  | nil =>
    rw [firstBranch, List.map_nil, evalWhile, pure_bind, choose]
    simp
  | cons branch others ih =>
    rw [firstBranch, List.map_cons, evalWhile, condition, ih]
    simp only [bind_assoc]
    refine bind_congr fun value => ?_
    cases found : value.truth? with
    | none => simp [choose, found, fail]
    | some truth => cases truth <;> simp [choose, found]

theorem steady_perform (spanOf : Culprit → Span) (edit : Edit) (target : Value) :
    Steady (perform spanOf edit target : Evaluation σ Unit) :=
  steady_heap.bind fun _ => (steady_locate _ _).bind fun _ => steady_setHeap _

theorem steady_store (valueNode target : Node) (values : List Value) :
    Steady (store surroundings valueNode target values) := by
  unfold store
  split
  · exact (steady_assign _ _ _).bind fun _ => steady_notifyAssign _ _ _
  · exact (steady_perform _ _ _).bind fun _ => steady_notifyMutation _ _
  · exact (steady_perform _ _ _).bind fun _ => steady_notifyMutation _ _
  · exact steady_fail _ _

theorem steady_remove (target : Node) (values : List Value) : Steady (remove surroundings target values) := by
  unfold remove
  split
  · exact (steady_perform _ _ _).bind fun _ => steady_notifyMutation _ _
  · exact (steady_perform _ _ _).bind fun _ => steady_notifyMutation _ _
  · exact steady_fail _ _

def Asks (surroundings : Surroundings σ) (goesOn : Value → Bool) (nodes : List Node) (part : Evaluation σ α) :
    Prop :=
  ∃ finish : List Value → Evaluation σ α, (∀ values, Steady (finish values)) ∧
    part = evalWhile surroundings goesOn nodes >>= finish

theorem Asks.bind {β : Type} {goesOn : Value → Bool} {nodes : List Node} {part : Evaluation σ α}
    {next : α → Evaluation σ β} (asks : Asks surroundings goesOn nodes part) (rest : ∀ value, Steady (next value)) :
    Asks surroundings goesOn nodes (part >>= next) := by
  obtain ⟨finish, steady, rfl⟩ := asks
  exact ⟨fun values => finish values >>= next, fun values => (steady values).bind rest, bind_assoc _ _ _⟩

theorem asks_evalAll (nodes : List Node) {finish : List Value → Evaluation σ α}
    (steady : ∀ values, Steady (finish values)) :
    Asks surroundings (fun _ => true) nodes (evalAll surroundings nodes >>= finish) :=
  ⟨finish, steady, by rw [evalAll_eq_evalWhile]⟩

theorem asks_eval (goesOn : Value → Bool) (node : Node) : Asks surroundings goesOn [node] (eval surroundings node) := by
  refine ⟨fun values => pure (values.headD .none), fun _ => steady_pure _, ?_⟩
  rw [evalWhile]
  simp [evalWhile]

theorem asks_assignTo (target valueNode : Node) :
    Asks surroundings (fun _ => true) (valueNode :: if target.isAssignable then target.operands else [])
      (assignTo surroundings target valueNode) := by
  cases assignable : target.isAssignable with
  | true =>
    rw [assignTo_eq surroundings assignable, if_pos rfl]
    exact asks_evalAll _ (steady_store valueNode target)
  | false =>
    have refused : assignTo surroundings target valueNode =
        eval surroundings valueNode >>= fun _ => fail .unassignableTarget target.span := by
      cases target with
      | identifier | element | slice => cases assignable
      | literal | unary | binary | call | array | assignment | choice | loop | definition | result | pass
      | deletion => rfl
    rw [refused]
    exact (asks_eval _ valueNode).bind fun _ => steady_fail _ _

theorem asks_delete (target : Node) :
    Asks surroundings (fun _ => true) (if target.tag = .subscript then target.operands else [])
      (delete surroundings target) := by
  by_cases deletable : target.tag = .subscript
  · rw [delete_eq surroundings deletable, if_pos deletable]
    exact asks_evalAll _ (steady_remove target)
  · have refused : delete surroundings target = fail .undeletableTarget target.span := by
      cases target with
      | element | slice => cases deletable rfl
      | literal | identifier | unary | binary | call | array | assignment | choice | loop | definition | result
      | pass | deletion => rfl
    rw [refused, if_neg deletable]
    exact ⟨fun _ => fail .undeletableTarget target.span, fun _ => steady_fail _ _, by rw [evalWhile, pure_bind]⟩

theorem asks_pure (goesOn : Value → Bool) (value : α) :
    Asks surroundings goesOn [] (pure value : Evaluation σ α) :=
  ⟨fun _ => pure value, fun _ => steady_pure _, by rw [evalWhile, pure_bind]⟩

theorem asks_exec (node : Node) : Asks surroundings node.goesOn node.asked (exec surroundings node) := by
  cases node with
  | assignment _ target value => exact (asks_assignTo target value).bind fun _ => steady_pure _
  | choice _ first body others otherwise =>
    refine Asks.bind ⟨_, steady_choose _, firstBranch_eq (.of first body :: others)⟩ fun chosen => ?_
    split
    · exact steady_pure _
    · split <;> exact steady_pure _
  | loop _ header body =>
    refine ((asks_eval _ header).bind fun value => ?_).bind fun truth => ?_
    · split
      · exact steady_pure _
      · exact steady_fail _ _
    · split <;> exact steady_pure _
  | definition _ name parameters body =>
    refine ⟨fun _ => define surroundings name parameters body >>= fun _ => pure .next, fun _ => ?_, ?_⟩
    · exact (steady_define _ _ _ _).bind fun _ => steady_pure _
    · rw [Node.asked, evalWhile, pure_bind]
      rfl
  | result _ value =>
    cases value with
    | none => exact asks_pure _ _
    | some value => exact (asks_eval _ value).bind fun _ => steady_pure _
  | pass => exact asks_pure _ _
  | deletion _ target => exact (asks_delete target).bind fun _ => steady_pure _
  | literal | identifier | unary | binary | call | element | slice | array =>
    exact (asks_eval _ _).bind fun _ => steady_pure _

theorem steady_combine (surroundings : Surroundings σ) (node : Node) (values : List Value) :
    Steady (combine surroundings node values) ∨ ∃ span callee nodes function arguments,
      node = .call span callee nodes ∧ values = function :: arguments := by
  unfold combine
  split
  · exact .inl (steady_pure _)
  · exact .inl (steady_lookup _ _ _)
  · exact .inl (steady_locate _ _)
  · exact .inl (steady_heap.bind fun _ => (steady_locate _ _).bind fun _ => steady_realize _)
  · exact .inr ⟨_, _, _, _, _, rfl, rfl⟩
  · exact .inl (steady_heap.bind fun _ => steady_locate _ _)
  · exact .inl (steady_heap.bind fun _ => (steady_locate _ _).bind fun _ => steady_realize _)
  · exact .inl (steady_realize _)
  · exact .inl (steady_fail _ _)

theorem detached_combine (surroundings : Surroundings σ) (node : Node) (values : List Value) :
    Detached (combine surroundings node values) := by
  rcases steady_combine surroundings node values with
    steady | ⟨span, callee, nodes, function, arguments, rfl, rfl⟩
  · exact steady.detached
  · exact detached_apply _ _ _ _ _ _

theorem combine_suspends {node : Node} {values : List Value} {progress : Progress σ} {closure : Closure}
    {arguments : List Value}
    (suspended : (combine surroundings node values progress).1 = .error (.suspend closure arguments)) :
    (∃ span callee nodes, node = .call span callee nodes) ∧ values = .function (.closure closure) :: arguments ∧
      closure.parameters.length = arguments.length := by
  rcases steady_combine surroundings node values with
    steady | ⟨span, callee, nodes, function, given, rfl, rfl⟩
  · exact absurd suspended (steady.settled _ _ _)
  obtain ⟨rfl, rfl, fits⟩ := apply_suspends (show (apply surroundings span callee nodes function given progress).1 = _ from
    suspended)
  exact ⟨⟨span, callee, nodes, rfl⟩, rfl, fits⟩

end Evaluation

end TabScript
