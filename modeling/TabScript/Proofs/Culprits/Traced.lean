import Mathlib.Data.List.Basic
import TabScript.Proofs.Culprits.Stages
import TabScript.Proofs.Culprits.Table
import TabScript.Proofs.Values.Declined
import TabScript.Proofs.Values.Subscripts

/-! Every failure has its line in the table.

A failed operation on values names the part that is to blame. Which stretch of the text that is, is settled where the
operation is carried out. Here both come together. -/

set_option autoImplicit false

namespace TabScript

variable {σ : Type}

namespace Value

variable {heap : Heap} {fault : OperationFault}

/-! What failures of operations on values say. -/

theorem culprit_of_integer {culprit : Culprit} {index : Value} (failed : integer culprit index = .error fault) :
    fault.culprit = culprit := by
  cases index with
  | number value =>
    rw [integer] at failed
    split at failed
    · cases failed
    · cases failed
      rfl
  | none | boolean | text | array | function =>
    cases failed
    rfl

theorem culprit_of_placeBelow {culprit : Culprit} {index : Value} {length limit : Nat}
    (failed : placeBelow culprit index length limit = .error fault) : fault.culprit = culprit := by
  rcases except_bind_error failed with failed | ⟨position, -, failed⟩
  · exact culprit_of_integer failed
  · dsimp only at failed
    split at failed
    · cases failed
      rfl
    · cases failed

theorem culprit_of_unary {operator : Operator} {operand : Value} (failed : operand.unary operator = .error fault) :
    fault.culprit = .operator := by
  unfold unary at failed
  split at failed <;> cases failed
  rfl

/-- The operator is to blame if the left operand does not know it, and otherwise the right operand. -/
def OfBinary (fault : OperationFault) : Prop :=
  fault.kind = .unknownOperation ∧ fault.culprit = .operator ∨
    (fault.kind = .typeViolation ∨ fault.kind = .divideByZero) ∧ fault.culprit = .operand

theorem ofBinary_binary {operator : Operator} {left right : Value}
    (failed : binary heap operator left right = .error fault) : OfBinary fault := by
  cases declined_binary failed with
  | operator => exact .inl ⟨rfl, rfl⟩
  | operand => exact .inr ⟨.inl rfl, rfl⟩
  | divisor | modulus => exact .inr ⟨.inr rfl, rfl⟩

end Value

namespace Evaluation

open Value (Astray)

/-! Subscripts: the culprit of a failure, and the stretch that it stands for. -/

section
variable {heap : Heap} {fault : OperationFault} {count : Option Nat} {length : Nat}
  {container position first last : Value} (spanOf : Culprit → Span)

theorem astray_index (some_ : count = some length) (failed : Value.elementPosition position length = .error fault) :
    Astray count (spanOf .target) [(spanOf .operand, position)] fault (spanOf fault.culprit) := by
  rw [Value.culprit_of_placeBelow (Value.elementPosition_eq .. ▸ failed)]
  exact .index some_ failed

theorem astray_range (some_ : count = some length) (failed : Value.sliceRange first last length = .error fault) :
    Astray count (spanOf .target) [(spanOf .sliceStart, first), (spanOf .sliceStop, last)] fault
      (spanOf fault.culprit) := by
  rcases except_bind_error failed with failed | ⟨place, good, failed⟩
  · rw [Value.culprit_of_placeBelow (Value.boundPosition_eq .. ▸ failed)]
    exact .start some_ failed
  · rcases except_bind_error failed with failed | ⟨other, -, failed⟩
    · rw [Value.culprit_of_placeBelow (Value.boundPosition_eq .. ▸ failed)]
      exact .stop some_ good failed
    · cases failed

theorem astray_element (failed : Value.element heap container position = .error fault) :
    Astray (container.readable? heap) (spanOf .target) [(spanOf .operand, position)] fault
      (spanOf fault.culprit) := by
  cases container with
  | text | array =>
    rcases except_bind_error failed with failed | ⟨_, -, failed⟩
    · exact astray_index spanOf rfl failed
    · cases failed
  | none | boolean | number | function =>
    cases failed
    exact .container rfl

theorem astray_slice (failed : Value.slice heap container first last = .error fault) :
    Astray (container.readable? heap) (spanOf .target) [(spanOf .sliceStart, first), (spanOf .sliceStop, last)] fault
      (spanOf fault.culprit) := by
  cases container with
  | text | array =>
    rcases except_bind_error failed with failed | ⟨_, -, failed⟩
    · exact astray_range spanOf rfl failed
    · cases failed
  | none | boolean | number | function =>
    cases failed
    exact .container rfl

theorem changeable_error (heap : Heap) {next : ArrayRef → Except OperationFault Heap}
    (failed : (Value.changeable container >>= next) = .error fault) :
    (container.changeable? heap = none ∧ fault = .mismatch (.value .array) container.kind .target) ∨
      ∃ ref, container = .array ref ∧ next ref = .error fault := by
  cases container with
  | array ref => exact .inr ⟨ref, rfl, failed⟩
  | none | boolean | number | text | function =>
    cases failed
    exact .inl ⟨rfl, rfl⟩

theorem astray_changeElement {change : ArrayRef → Nat → Heap}
    (failed : (do
      let ref ← Value.changeable container
      let place ← Value.elementPosition position (heap.items ref).length
      return change ref place) = .error fault) :
    Astray (container.changeable? heap) (spanOf .target) [(spanOf .operand, position)] fault
      (spanOf fault.culprit) := by
  rcases changeable_error heap failed with ⟨none, rfl⟩ | ⟨ref, rfl, rest⟩
  · exact .container none
  · rcases except_bind_error rest with bad | ⟨place, -, fails⟩
    · exact astray_index spanOf rfl bad
    · cases fails

theorem astray_changeSlice {next : ArrayRef → Nat × Nat → Except OperationFault Heap}
    (failed : (do
      let ref ← Value.changeable container
      let range ← Value.sliceRange first last (heap.items ref).length
      next ref range) = .error fault) :
    Astray (container.changeable? heap) (spanOf .target) [(spanOf .sliceStart, first), (spanOf .sliceStop, last)]
        fault (spanOf fault.culprit) ∨
      ∃ ref range, container = .array ref ∧ Value.sliceRange first last (heap.items ref).length = .ok range ∧
        next ref range = .error fault := by
  rcases changeable_error heap failed with ⟨none, rfl⟩ | ⟨ref, rfl, rest⟩
  · exact .inl (.container none)
  · rcases except_bind_error rest with bad | ⟨range, good, fails⟩
    · exact .inl (astray_range spanOf rfl bad)
    · exact .inr ⟨ref, range, rfl, good, fails⟩

end

/-! Expressions. -/

section
variable {surroundings : Surroundings σ} {progress after : Progress σ} {fault : Fault}

theorem Fails.lookup {span : Span} {name : String} (fails : Fails (lookup surroundings span name) progress fault) :
    progress.memory.scopes.lookup surroundings.scope name = none ∧ fault = ⟨.undefinedVariable name, span⟩ := by
  replace fails := Fails.get fails
  split at fails
  · cases fails
  · rename_i unbound
    exact ⟨unbound, fails.fail⟩

section
variable {span : Span} {callee : Node} {nodes : List Node} {builtin : Builtin} {arguments : List Value}

theorem refuses_length (native : builtin.native = .length) (count : arguments.length = nodes.length)
    (fails : Fails (length span nodes arguments) progress fault) :
    Refuses surroundings progress (.call span callee nodes) (.function (.builtin builtin) :: arguments) fault := by
  unfold Evaluation.length at fails
  split at fails
  · obtain ⟨argument, rfl⟩ := List.length_eq_one_iff.1 count.symm
    obtain ⟨cause, failed, rfl⟩ := (fails.heap.before fun _ => safe_pure _).locate
    exact .length native failed
  · rename_i other
    obtain rfl := fails.fail
    refine .lengthArity native fun single => ?_
    obtain ⟨argument, rfl⟩ := List.length_eq_one_iff.1 single
    exact other argument rfl

theorem refuses_callHost {index : Nat} (native : builtin.native = .host index)
    (fails : Fails (callHost surroundings span builtin.name index arguments) progress fault) :
    Refuses surroundings progress (.call span callee nodes) (.function (.builtin builtin) :: arguments) fault := by
  replace fails := Fails.heap fails
  dsimp only at fails
  split at fails
  · cases fails
  · rename_i run found
    replace fails := Fails.modify (Fails.get fails)
    split at fails
    · rename_i message answer
      obtain rfl := fails.fail
      exact .host native found answer
    · cases fails
    · rename_i json answer
      split at fails
      · cases fails
      · rename_i unusable
        obtain rfl := fails.fail
        exact .answer native found answer unusable

theorem refuses_apply {function : Value} (count : arguments.length = nodes.length)
    (fails : Fails (apply surroundings span callee nodes function arguments) progress fault) :
    Refuses surroundings progress (.call span callee nodes) (function :: arguments) fault := by
  unfold apply at fails
  split at fails
  · split at fails
    · cases fails
    · rename_i differ
      obtain rfl := fails.fail
      exact .arity differ
  · rename_i builtin
    unfold callBuiltin at fails
    split at fails
    · -- to print is to tell the hooks, and never fails
      unfold print at fails
      split at fails
      · exact absurd fails.heap (Safe.bind (safe_modify _) (fun _ => safe_pure _) _ _)
      · cases fails
    · rename_i native
      exact refuses_length native count fails
    · rename_i native
      exact refuses_callHost native fails
  · rename_i made builtin
    obtain rfl := fails.heap.fail
    refine .callee fun function => ?_
    rintro rfl
    cases function with
    | closure closure => exact made closure rfl
    | builtin native => exact builtin native rfl

end

theorem refuses_combine {node : Node} (operand : node.IsOperand) {values : List Value}
    (count : values.length = node.operands.length) (fails : Fails (combine surroundings node values) progress fault) :
    Refuses surroundings progress node values fault := by
  cases node with
  | literal => cases fails
  | identifier =>
    obtain rfl := List.eq_nil_of_length_eq_zero count
    obtain ⟨unbound, rfl⟩ := Fails.lookup fails
    exact .name unbound
  | unary =>
    obtain ⟨value, rfl⟩ := List.length_eq_one_iff.1 count
    obtain ⟨cause, failed, rfl⟩ := Fails.locate fails
    rw [Value.culprit_of_unary failed]
    exact .unary failed
  | binary =>
    obtain ⟨first, second, rfl⟩ := List.length_eq_two.1 count
    obtain ⟨cause, failed, rfl⟩ := (Fails.heap fails |>.before safe_realize).locate
    rcases Value.ofBinary_binary failed with ⟨kind, blamed⟩ | ⟨kind, blamed⟩
    · rw [blamed]
      exact .operator failed kind
    · rw [blamed]
      exact .right failed kind
  | call =>
    match values, count with
    | function :: arguments, count => exact refuses_apply (Nat.succ.inj count) fails
  | element span target index =>
    obtain ⟨container, position, rfl⟩ := List.length_eq_two.1 count
    obtain ⟨cause, failed, rfl⟩ := (Fails.heap fails).locate
    exact .element (astray_element (elementSpan span target index) failed)
  | slice span target start stop =>
    obtain ⟨container, first, last, rfl⟩ := List.length_eq_three.1 count
    obtain ⟨cause, failed, rfl⟩ := (Fails.heap fails |>.before safe_realize).locate
    exact .slice (astray_slice (sliceSpan span target start stop) failed)
  | array => exact absurd fails (safe_realize _ _ _)
  | assignment | choice | loop | definition | result | pass | deletion => cases operand

theorem stumbles_eval {node : Node} (operand : node.IsOperand) {progress : Progress σ}
    (fails : Fails (eval surroundings node) progress fault) : Stumbles surroundings node progress fault := by
  rw [eval_eq surroundings operand] at fails
  obtain ⟨slot, replay, fresh, fails⟩ := fails.remember
  rcases fails.bind with fails | ⟨values, after, given, fails⟩
  · -- the operand that fails is smaller than the whole expression
    obtain ⟨before, part, others, values, between, split, given, fails⟩ := fails.evalAll
    have inside : part ∈ node.operands := split ▸ List.mem_append_right _ List.mem_cons_self
    exact .operand fresh split given (stumbles_eval (operand.operands inside) fails)
  · exact .here fresh given (refuses_combine operand (length_evalAll given) fails)
termination_by sizeOf node
decreasing_by exact Node.smaller_of_operands operand inside

/-! Statements. -/

theorem rejects_store {whole : Span} {valueNode target : Node} (assignable : target.isAssignable = true)
    {values : List Value} (count : values.length = (valueNode :: target.operands).length)
    (fails : Fails (store surroundings valueNode target values) progress fault) :
    Rejects progress.memory.heap (.assignment whole target valueNode) values fault := by
  match values, count with
  | given :: parts, count =>
    replace count : parts.length = target.operands.length := Nat.succ.inj count
    cases target with
    | identifier =>
      obtain rfl := List.eq_nil_of_length_eq_zero count
      exact absurd fails ((safe_assign _ _ _).bind (fun _ => safe_notifyAssign _ _) _ _)
    | element span target index =>
      obtain ⟨container, position, rfl⟩ := List.length_eq_two.1 count
      obtain ⟨cause, failed, rfl⟩ := (Fails.before fails fun _ => safe_notifyMutation _).perform
      exact .assignElement (astray_changeElement (elementSpan span target index) failed)
    | slice span target start stop =>
      obtain ⟨container, first, last, rfl⟩ := List.length_eq_three.1 count
      obtain ⟨cause, failed, rfl⟩ := (Fails.before fails fun _ => safe_notifyMutation _).perform
      rcases astray_changeSlice (storedSpan span target start stop valueNode) failed with
        astray | ⟨ref, range, rfl, good, failed⟩
      · exact .assignSlice astray
      · -- the target can be changed, so the value itself is to blame
        cases given with
        | array => cases failed
        | none | boolean | number | text | function =>
          cases failed
          exact .assigned rfl good nofun
    | literal | unary | binary | call | array | assignment | choice | loop | definition | result | pass
    | deletion => cases assignable

theorem rejects_remove {whole : Span} {target : Node} (deletable : target.tag = .subscript) {values : List Value}
    (count : values.length = target.operands.length) (fails : Fails (remove surroundings target values) progress fault) :
    Rejects progress.memory.heap (.deletion whole target) values fault := by
  cases target with
  | element span target index =>
    obtain ⟨container, position, rfl⟩ := List.length_eq_two.1 count
    obtain ⟨cause, failed, rfl⟩ := (Fails.before fails fun _ => safe_notifyMutation _).perform
    exact .deleteElement (astray_changeElement (elementSpan span target index) failed)
  | slice span target start stop =>
    obtain ⟨container, first, last, rfl⟩ := List.length_eq_three.1 count
    obtain ⟨cause, failed, rfl⟩ := (Fails.before fails fun _ => safe_notifyMutation _).perform
    rcases astray_changeSlice (sliceSpan span target start stop) failed with astray | ⟨_, _, _, -, failed⟩
    · exact .deleteSlice astray
    · cases failed
  | literal | identifier | unary | binary | call | array | assignment | choice | loop | definition | result | pass
  | deletion => cases deletable

theorem Fails.condition {node : Node} (fails : Fails (condition surroundings node) progress fault) :
    Fails (eval surroundings node) progress fault ∨
      ∃ value after, eval surroundings node progress = (.ok value, after) ∧ (∀ truth, value ≠ .boolean truth) ∧
        fault = ⟨.notCondition value.kind, node.span⟩ := by
  rcases fails.bind with fails | ⟨value, after, found, fails⟩
  · exact .inl fails
  · refine .inr ⟨value, after, found, ?_⟩
    cases value with
    | boolean => cases fails
    | none | number | text | array | function => exact ⟨nofun, Fails.fail fails⟩

theorem eval_of_condition {node : Node} {truth : Bool}
    (found : condition surroundings node progress = (.ok truth, after)) :
    eval surroundings node progress = (.ok (.boolean truth), after) := by
  obtain ⟨value, middle, evaluated, found⟩ := bind_ok found
  cases value with
  | boolean =>
    cases found
    exact evaluated
  | none | number | text | array | function => cases found

theorem Fails.firstBranch {branches : List Branch}
    (fails : Fails (Evaluation.firstBranch surroundings branches) progress fault) :
    ∃ before asked others values between, branches.map Branch.condition = before ++ asked :: others ∧
      Evaluation.evalAll surroundings before progress = (.ok values, between) ∧
        (∀ value ∈ values, value = .boolean false) ∧
          Fails (Evaluation.condition surroundings asked) between fault := by
  induction branches generalizing progress with
  | nil => cases fails
  | cons branch branches ih =>
    rcases Fails.bind fails with fails | ⟨truth, middle, found, fails⟩
    · exact ⟨[], branch.condition, branches.map Branch.condition, [], progress, rfl, evalAll_nil, nofun, fails⟩
    · cases truth with
      | true => cases fails
      | false =>
        obtain ⟨before, asked, others, values, between, split, given, failed, fails⟩ := ih fails
        exact ⟨branch.condition :: before, asked, others, .boolean false :: values, between,
          congrArg (branch.condition :: ·) split, evalAll_cons (eval_of_condition found) given,
          List.forall_mem_cons.2 ⟨rfl, failed⟩, fails⟩

theorem breaks_condition {node asked : Node} {before others : List Node} {values : List Value} {between : Progress σ}
    (conditions : node.evaluated = node.conditions) (split : node.conditions = before ++ asked :: others)
    (operand : asked.IsOperand) (given : evalAll surroundings before progress = (.ok values, between))
    (failed : ∀ value ∈ values, value = .boolean false)
    (fails : Fails (condition surroundings asked) between fault) : Breaks surroundings node progress fault := by
  have whole := conditions.trans split
  rcases fails.condition with fails | ⟨value, after, found, other, rfl⟩
  · exact .expression whole given (fun _ => failed) (stumbles_eval operand fails)
  · refine .here (whole.trans (List.append_cons ..)) (evalAll_concat given found) (fun _ => ?_)
      (.condition split (length_evalAll given) other)
    rwa [List.dropLast_concat]

theorem breaks_evalAll {node : Node} {parts : List Node} {finish : List Value → Evaluation σ Unit}
    (evaluated : node.evaluated = parts) (all : node.tag ≠ .choice) (operands : ∀ part ∈ parts, part.IsOperand)
    (rejects : ∀ {values after}, values.length = parts.length → Fails (finish values) after fault →
      Rejects after.memory.heap node values fault)
    (fails : Fails (evalAll surroundings parts >>= finish) progress fault) :
    Breaks surroundings node progress fault := by
  rcases fails.bind with fails | ⟨values, after, given, fails⟩
  · obtain ⟨before, part, others, values, between, rfl, given, fails⟩ := fails.evalAll
    exact .expression evaluated given (fun choice => absurd choice all)
      (stumbles_eval (operands part (List.mem_append_right _ List.mem_cons_self)) fails)
  · exact .here (evaluated.trans (List.append_nil _).symm) given (fun choice => absurd choice all)
      (rejects (length_evalAll given) fails)

theorem breaks_eval {node part : Node} (evaluated : node.evaluated = [part]) (operand : part.IsOperand)
    (fails : Fails (eval surroundings part) progress fault) : Breaks surroundings node progress fault :=
  .expression evaluated evalAll_nil (fun _ => nofun) (stumbles_eval operand fails)

theorem breaks_exec {node : Node} (proper : node.IsProper) (fails : Fails (exec surroundings node) progress fault) :
    Breaks surroundings node progress fault := by
  cases node with
  | assignment span target value =>
    obtain ⟨⟨assignable, there⟩, given⟩ := proper
    have fails := Fails.before fails fun _ => safe_pure _
    rw [assignTo_eq surroundings assignable] at fails
    exact breaks_evalAll rfl nofun (List.forall_mem_cons.2 ⟨given, fun _ inside => there.operands inside⟩)
      (rejects_store assignable) fails
  | deletion span target =>
    obtain ⟨deletable, there⟩ := proper
    have fails := Fails.before fails fun _ => safe_pure _
    rw [delete_eq surroundings deletable] at fails
    exact breaks_evalAll rfl nofun (fun _ inside => there.operands inside) (rejects_remove deletable) fails
  | choice span condition body others otherwise =>
    obtain ⟨first, -, further, -⟩ := proper
    have fails : Fails (firstBranch surroundings (.of condition body :: others)) progress fault :=
      Fails.before fails fun chosen => by
        cases chosen with
        | some block => exact safe_pure _
        | none => cases otherwise <;> exact safe_pure _
    obtain ⟨before, asked, rest, values, between, split, given, failed, fails⟩ := fails.firstBranch
    refine breaks_condition rfl split ?_ given failed fails
    -- the condition that fails is that of one of the branches, and so an expression
    have inside : asked ∈ (Branch.of condition body :: others).map Branch.condition :=
      split ▸ List.mem_append_right _ List.mem_cons_self
    obtain ⟨branch, among, rfl⟩ := List.mem_map.1 inside
    rcases List.mem_cons.1 among with rfl | among
    · exact first
    · exact (Branch.areFilled_iff.1 further branch among).1
  | loop span header body =>
    have fails := Fails.before fails fun truth => by
      cases truth <;> exact safe_pure _
    exact breaks_condition rfl rfl proper.1 evalAll_nil nofun fails
  | definition span name parameters body =>
    have safe : Safe (define surroundings name parameters body) := safe_get.bind fun _ => (safe_modify _).bind
      fun _ => (safe_assign _ _ _).bind fun _ => safe_notifyAssign _ _
    exact absurd fails (safe.bind (fun _ => safe_pure _) _ _)
  | result span value =>
    cases value with
    | none => cases fails
    | some value => exact breaks_eval rfl proper (Fails.before fails fun _ => safe_pure _)
  | pass => cases fails
  | literal | identifier | unary | binary | call | element | slice | array =>
    exact breaks_eval rfl proper (Fails.before fails fun _ => safe_pure _)

end

end Evaluation

end TabScript
