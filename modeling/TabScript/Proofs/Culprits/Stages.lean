import TabScript.Proofs.Nesting.Nested
import TabScript.Proofs.Values.Edits

/-! Evaluation in two stages.

An expression first evaluates all its operands, from left to right, and then makes something of their values. An
assignment first evaluates the value and then the parts of the target, a deletion the parts of its target. So
whatever fails in the second stage does so with all values at hand. -/

set_option autoImplicit false

namespace TabScript

variable {σ : Type}

namespace Node

variable {node part : Node}

theorem IsOperand.operands (operand : node.IsOperand) (inside : part ∈ node.operands) : part.IsOperand := by
  cases node with
  | literal | identifier => cases inside
  | unary => exact List.mem_singleton.1 inside ▸ operand
  | binary | element =>
    have parts := List.forall_mem_cons.2 ⟨operand.1, List.forall_mem_singleton.2 operand.2⟩
    exact parts part inside
  | slice =>
    have parts := List.forall_mem_cons.2 ⟨operand.1, List.forall_mem_cons.2 ⟨operand.2.1,
      List.forall_mem_singleton.2 operand.2.2⟩⟩
    exact parts part inside
  | call => exact List.forall_mem_cons.2 ⟨operand.1, areOperands_iff.1 operand.2⟩ part inside
  | array => exact areOperands_iff.1 operand part inside
  | assignment | choice | loop | definition | result | pass | deletion => cases operand

/-- The expressions that an expression evaluates. A statement in the place of a value evaluates none. -/
def parts : Node → List Node
  | .assignment .. | .choice .. | .loop .. | .definition .. | .result .. | .pass _ | .deletion .. => []
  | expression => expression.operands

theorem IsOperand.parts (operand : node.IsOperand) : node.parts = node.operands := by
  cases node with
  | literal | identifier | unary | binary | call | element | slice | array => rfl
  | assignment | choice | loop | definition | result | pass | deletion => cases operand

theorem smaller_of_parts (inside : part ∈ node.parts) : sizeOf part < sizeOf node := by
  cases node with
  | unary | binary | element | slice =>
    simp only [parts, operands, List.mem_cons, List.not_mem_nil, or_false] at inside
    grind
  | call =>
    have below := List.sizeOf_lt_of_mem inside
    simp only [parts, operands, List.cons.sizeOf_spec] at below
    simp only [call.sizeOf_spec]
    omega
  | array =>
    have below := List.sizeOf_lt_of_mem inside
    simp only [parts, operands] at below
    simp only [array.sizeOf_spec]
    omega
  | literal | identifier | assignment | choice | loop | definition | result | pass | deletion => cases inside

theorem smaller_of_operands (operand : node.IsOperand) (inside : part ∈ node.operands) :
    sizeOf part < sizeOf node :=
  smaller_of_parts (operand.parts ▸ inside)

end Node

namespace Evaluation

def binarySpan (operatorSpan : Span) (left right : Node) : Culprit → Span
  | .operator => operatorSpan
  | .target => left.span
  | _ => right.span

def storedSpan (whole : Span) (target start stop value : Node) (culprit : Culprit) : Span :=
  if culprit = .operand then value.span else sliceSpan whole target start stop culprit

section
variable (surroundings : Surroundings σ)

def combine : Node → List Value → Evaluation σ Value
  | .literal _ value, _ => return .ofLiteral value
  | .identifier span name, _ => lookup surroundings span name
  | .unary _ operator operatorSpan operand, [value] =>
    locate (fun culprit => if culprit = .operator then operatorSpan else operand.span) (value.unary operator)
  | .binary _ operator operatorSpan left right, [first, second] => do
    let computed ← locate (binarySpan operatorSpan left right) (Value.binary (← heap) operator first second)
    realize computed
  | .call span callee nodes, function :: arguments => apply surroundings span callee nodes function arguments
  | .element span target index, [container, position] => do
    locate (elementSpan span target index) (Value.element (← heap) container position)
  | .slice span target start stop, [container, first, last] => do
    let computed ← locate (sliceSpan span target start stop) (Value.slice (← heap) container first last)
    realize computed
  | .array _ _, values => realize (.items values)
  | node, _ => fail .statementAsValue node.span

def store (valueNode : Node) : Node → List Value → Evaluation σ Unit
  | .identifier _ name, [value] => do
    assign surroundings.scope name value
    notifyAssign surroundings (some name) value
  | .element span container index, [value, root, position] => do
    perform (elementSpan span container index) (.setElement position value) root
    notifyMutation surroundings container
  | .slice span container start stop, [value, root, first, last] => do
    perform (storedSpan span container start stop valueNode) (.setSlice first last value) root
    notifyMutation surroundings container
  | target, _ => fail .unassignableTarget target.span

def remove : Node → List Value → Evaluation σ Unit
  | .element span container index, [root, position] => do
    perform (elementSpan span container index) (.deleteElement position) root
    notifyMutation surroundings container
  | .slice span container start stop, [root, first, last] => do
    perform (sliceSpan span container start stop) (.deleteSlice first last) root
    notifyMutation surroundings container
  | target, _ => fail .undeletableTarget target.span

theorem eval_parts (node : Node) :
    eval surroundings node = remember (evalAll surroundings node.parts >>= combine surroundings node) := by
  cases node with
  | literal | identifier | unary | call | element | slice =>
    simp only [eval, Node.parts, Node.operands, evalAll, bind_assoc, pure_bind, combine]
  | binary =>
    simp only [eval, Node.parts, Node.operands, evalAll, bind_assoc, pure_bind, combine]
    rfl
  | array =>
    rw [eval]
    rfl
  | assignment | choice | loop | definition | result | pass | deletion =>
    simp only [eval, Node.parts, evalAll, pure_bind, combine, Node.span]

theorem eval_eq {node : Node} (operand : node.IsOperand) :
    eval surroundings node = remember (evalAll surroundings node.operands >>= combine surroundings node) := by
  rw [eval_parts, operand.parts]

theorem assignTo_eq {target : Node} (assignable : target.isAssignable = true) (valueNode : Node) :
    assignTo surroundings target valueNode =
      evalAll surroundings (valueNode :: target.operands) >>= store surroundings valueNode target := by
  cases target with
  | identifier =>
    simp only [assignTo, Node.operands, evalAll, bind_assoc, pure_bind, store]
  | element =>
    simp only [(edits surroundings).setElement, Node.operands, evalAll, bind_assoc, pure_bind, store]
  | slice =>
    simp only [(edits surroundings).setSlice, Node.operands, evalAll, bind_assoc, pure_bind, store]
    rfl
  | literal | unary | binary | call | array | assignment | choice | loop | definition | result | pass
  | deletion => cases assignable

theorem delete_eq {target : Node} (deletable : target.tag = .subscript) :
    delete surroundings target = evalAll surroundings target.operands >>= remove surroundings target := by
  cases target with
  | element | slice =>
    simp only [(edits surroundings).deleteElement, (edits surroundings).deleteSlice, Node.operands, evalAll,
      bind_assoc, pure_bind, remove]
  | literal | identifier | unary | binary | call | array | assignment | choice | loop | definition | result | pass
  | deletion => cases deletable

end

/-! Where a computation fails. -/

section
variable {α β : Type} {surroundings : Surroundings σ} {progress after : Progress σ} {fault : Fault}

def Fails (computation : Evaluation σ α) (progress : Progress σ) (fault : Fault) : Prop :=
  (computation progress).1 = .error (.fail fault)

def Safe (computation : Evaluation σ α) : Prop := ∀ progress fault, ¬Fails computation progress fault

theorem Fails.bind {first : Evaluation σ α} {next : α → Evaluation σ β}
    (fails : Fails (first >>= next) progress fault) : Fails first progress fault ∨
      ∃ value after, first progress = (.ok value, after) ∧ Fails (next value) after fault := by
  rw [Fails, bind_apply] at fails
  rcases begun : first progress with ⟨interrupt | value, middle⟩
  · rw [begun] at fails
    have same : interrupt = .fail fault := Except.error.inj fails
    exact .inl (by rw [Fails, begun, same])
  · rw [begun] at fails
    exact .inr ⟨value, middle, rfl, fails⟩

theorem Fails.before {first : Evaluation σ α} {next : α → Evaluation σ β}
    (fails : Fails (first >>= next) progress fault) (safe : ∀ value, Safe (next value)) :
    Fails first progress fault := by
  rcases fails.bind with fails | ⟨value, after, -, fails⟩
  · exact fails
  · exact absurd fails (safe value after fault)

theorem Safe.bind {first : Evaluation σ α} {next : α → Evaluation σ β} (start : Safe first)
    (rest : ∀ value, Safe (next value)) : Safe (first >>= next) :=
  fun progress fault fails => start progress fault (fails.before rest)

theorem safe_pure (value : α) : Safe (pure value : Evaluation σ α) := fun _ _ fails => nomatch fails

theorem safe_get : Safe (get : Evaluation σ (Progress σ)) := fun _ _ fails => nomatch fails

theorem safe_modify (change : Progress σ → Progress σ) : Safe (modify change : Evaluation σ Unit) :=
  fun _ _ fails => nomatch fails

theorem safe_assign (scope : ScopeId) (name : String) (value : Value) :
    Safe (assign scope name value : Evaluation σ Unit) := fun _ _ fails => nomatch fails

theorem safe_realize (computed : Computed) : Safe (realize computed : Evaluation σ Value) :=
  fun _ _ fails => nomatch fails

theorem safe_notifyAssign (name : Option String) (value : Value) : Safe (notifyAssign surroundings name value) := by
  unfold notifyAssign
  split
  · exact safe_get.bind fun _ => safe_modify _
  · exact safe_pure _

theorem safe_notifyMutation (container : Node) : Safe (notifyMutation surroundings container) :=
  safe_get.bind fun _ => safe_notifyAssign _ _

theorem Fails.heap {next : Heap → Evaluation σ α} (fails : Fails (heap >>= next) progress fault) :
    Fails (next progress.memory.heap) progress fault := fails

theorem Fails.get {next : Progress σ → Evaluation σ α} (fails : Fails (get >>= next) progress fault) :
    Fails (next progress) progress fault := fails

theorem Fails.modify {change : Progress σ → Progress σ} {next : PUnit → Evaluation σ α}
    (fails : Fails (modify change >>= next) progress fault) : Fails (next ⟨⟩) (change progress) fault := fails

theorem Fails.fail {cause : Cause} {span : Span} (fails : Fails (fail cause span : Evaluation σ α) progress fault) :
    fault = ⟨cause, span⟩ := by
  cases fails
  rfl

theorem Fails.locate {spanOf : Culprit → Span} {result : Except OperationFault α}
    (fails : Fails (locate spanOf result : Evaluation σ α) progress fault) :
    ∃ cause, result = .error cause ∧ fault = ⟨.operation cause, spanOf cause.culprit⟩ := by
  cases result with
  | ok value => cases fails
  | error cause => exact ⟨cause, rfl, Fails.fail fails⟩

theorem Fails.perform {spanOf : Culprit → Span} {edit : Edit} {target : Value}
    (fails : Fails (perform spanOf edit target : Evaluation σ Unit) progress fault) :
    ∃ cause, edit.perform progress.memory.heap target = .error cause ∧
      fault = ⟨.operation cause, spanOf cause.culprit⟩ := by
  rw [Fails, perform_apply] at fails
  cases reached : edit.perform progress.memory.heap target with
  | ok after =>
    rw [reached] at fails
    cases fails
  | error cause =>
    rw [reached] at fails
    cases fails
    exact ⟨cause, rfl, rfl⟩

theorem Fails.remember {body : Evaluation σ Value} (fails : Fails (remember body) progress fault) :
    ∃ slot replay, progress.replay.take = (.fresh slot, replay) ∧
      Fails body { progress with replay := replay } fault := by
  unfold Fails Evaluation.remember at fails
  rcases took : progress.replay.take with ⟨value | slot, replay⟩
  · simp only [took] at fails
    cases fails
  · simp only [took] at fails
    refine ⟨slot, replay, rfl, ?_⟩
    rw [Fails]
    rcases ended : body { progress with replay := replay } with ⟨(other | _) | _, after⟩ <;> rw [ended] at fails
    · exact fails
    · cases fails
    · cases fails

theorem evalAll_nil : evalAll surroundings [] progress = (.ok [], progress) := by
  rw [evalAll]
  rfl

theorem evalAll_cons {node : Node} {nodes : List Node} {between : Progress σ} {value : Value} {values : List Value}
    (found : eval surroundings node progress = (.ok value, between))
    (given : evalAll surroundings nodes between = (.ok values, after)) :
    evalAll surroundings (node :: nodes) progress = (.ok (value :: values), after) := by
  rw [evalAll, bind_apply, found]
  change (evalAll surroundings nodes >>= _) between = _
  rw [bind_apply, given]
  rfl

theorem evalAll_concat {before : List Node} {part : Node} {between : Progress σ} {values : List Value} {value : Value}
    (given : evalAll surroundings before progress = (.ok values, between))
    (found : eval surroundings part between = (.ok value, after)) :
    evalAll surroundings (before ++ [part]) progress = (.ok (values ++ [value]), after) := by
  induction before generalizing progress values with
  | nil =>
    cases given
    exact evalAll_cons found evalAll_nil
  | cons first others ih =>
    rw [evalAll] at given
    obtain ⟨one, middle, begun, given⟩ := bind_ok given
    obtain ⟨more, later, given, ended⟩ := bind_ok given
    cases ended
    exact evalAll_cons begun (ih given)

theorem length_evalAll {nodes : List Node} {values : List Value}
    (given : evalAll surroundings nodes progress = (.ok values, after)) : values.length = nodes.length := by
  induction nodes generalizing progress values with
  | nil =>
    cases given
    rfl
  | cons node nodes ih =>
    rw [evalAll] at given
    obtain ⟨_, _, -, given⟩ := bind_ok given
    obtain ⟨more, _, given, ended⟩ := bind_ok given
    cases ended
    exact congrArg (· + 1) (ih given)

theorem Fails.evalAll {nodes : List Node} (fails : Fails (evalAll surroundings nodes) progress fault) :
    ∃ before part others values between, nodes = before ++ part :: others ∧
      evalAll surroundings before progress = (.ok values, between) ∧
        Fails (eval surroundings part) between fault := by
  induction nodes generalizing progress with
  | nil => cases fails
  | cons node nodes ih =>
    rw [Evaluation.evalAll] at fails
    rcases fails.bind with fails | ⟨value, middle, found, fails⟩
    · exact ⟨[], node, nodes, [], progress, rfl, evalAll_nil, fails⟩
    · obtain ⟨before, part, others, values, between, rfl, given, fails⟩ := ih (fails.before fun _ => safe_pure _)
      exact ⟨node :: before, part, others, value :: values, between, rfl, evalAll_cons found given, fails⟩

end

end Evaluation

end TabScript
