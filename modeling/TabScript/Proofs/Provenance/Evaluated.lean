import TabScript.Proofs.Provenance.Values
import TabScript.Proofs.Stack.Shape

/-! Where the functions of a run come from.

A statement reads values, puts them into arrays and binds them, but the only functions it makes are those that
it defines. So what all values have, all values still have when the statement ends, if the function that it
defines has it too. -/

set_option autoImplicit false

namespace TabScript

variable {σ α β : Type} {holds : Value → Prop}

structure Progress.All (holds : Value → Prop) (progress : Progress σ) : Prop where
  memory : progress.memory.All holds
  replay : progress.replay.All holds

namespace Evaluation

/-- How a computation may end: every value in reach has the property, and so has what is called. -/
inductive Leaves (holds : Value → Prop) (fine : α → Prop) : Except Interrupt α × Progress σ → Prop where
  | ok {value : α} {after : Progress σ} (all : after.All holds) (good : fine value) :
    Leaves holds fine (.ok value, after)
  | fail {fault : Fault} {after : Progress σ} (all : after.All holds) :
    Leaves holds fine (.error (.fail fault), after)
  | suspend {closure : Closure} {arguments : List Value} {after : Progress σ} (all : after.All holds)
    (callee : holds (.function (.closure closure))) (given : ∀ argument ∈ arguments, holds argument) :
    Leaves holds fine (.error (.suspend closure arguments), after)

def Preserves (holds : Value → Prop) (fine : α → Prop) (computation : Evaluation σ α) : Prop :=
  ∀ progress : Progress σ, progress.All holds → Leaves holds fine (computation progress)

variable {fine : α → Prop} {later : β → Prop}

section
variable {reached : Except Interrupt α × Progress σ} (leaves : Leaves holds fine reached)
include leaves

theorem Leaves.state : reached.2.All holds := by
  cases leaves <;> assumption

theorem Leaves.value {value : α} (ended : reached.1 = .ok value) : fine value := by
  cases leaves <;> cases ended
  assumption

theorem Leaves.call {closure : Closure} {arguments : List Value}
    (ended : reached.1 = .error (.suspend closure arguments)) :
    holds (.function (.closure closure)) ∧ ∀ argument ∈ arguments, holds argument := by
  cases leaves <;> cases ended
  exact ⟨‹_›, ‹_›⟩

end

theorem Preserves.bind {first : Evaluation σ α} {next : α → Evaluation σ β}
    (start : Preserves holds fine first)
    (rest : ∀ value, fine value → Preserves holds later (next value)) :
    Preserves holds later (first >>= next) := by
  intro progress all
  rw [bind_apply]
  have leaves := start progress all
  generalize first progress = reached at leaves
  cases leaves with
  | ok between good => exact rest _ good _ between
  | fail between => exact .fail between
  | suspend between callee given => exact .suspend between callee given

theorem Preserves.andThen {first : Evaluation σ α} {next : α → Evaluation σ β}
    (start : Preserves holds (fun _ => True) first) (rest : ∀ value, Preserves holds later (next value)) :
    Preserves holds later (first >>= next) :=
  start.bind fun value _ => rest value

theorem preserves_pure {value : α} (good : fine value) : Preserves holds fine (pure value : Evaluation σ α) :=
  fun _ all => .ok all good

theorem preserves_fail {cause : Cause} {span : Span} :
    Preserves holds fine (fail cause span : Evaluation σ α) := fun _ all => .fail all

theorem preserves_locate {spanOf : Culprit → Span} {result : Except OperationFault α}
    (good : ∀ value, result = .ok value → fine value) :
    Preserves holds fine (locate spanOf result : Evaluation σ α) := by
  cases result with
  | ok value => exact preserves_pure (good value rfl)
  | error fault => exact preserves_fail

/-- What depends on the state begins where all values have the property. -/
theorem preserves_get {next : Progress σ → Evaluation σ α}
    (rest : ∀ progress : Progress σ, progress.All holds → Leaves holds fine (next progress progress)) :
    Preserves holds fine (get >>= next) := rest

theorem preserves_heap {next : Heap → Evaluation σ α}
    (rest : ∀ heap : Heap, heap.All holds → Preserves holds fine (next heap)) :
    Preserves holds fine (heap >>= next) := fun progress all => rest _ all.memory.heap progress all

theorem preserves_emit (event : Event) :
    Preserves holds (fun _ => True) (emit event : Evaluation σ Unit) := fun _ all =>
  .ok ⟨all.memory, all.replay⟩ trivial

theorem preserves_assign (scope : ScopeId) (name : String) {value : Value} (good : holds value) :
    Preserves holds (fun _ => True) (assign scope name value : Evaluation σ Unit) := fun _ all =>
  .ok ⟨⟨all.memory.heap, all.memory.scopes.assign scope name good⟩, all.replay⟩ trivial

theorem Preserves.remember {body : Evaluation σ Value} (inner : Preserves holds holds body) :
    Preserves holds holds (remember body) := by
  intro progress all
  have taken := all.replay.take
  unfold Evaluation.remember
  rcases took : progress.replay.take with ⟨value | slot, replay⟩ <;> rw [took] at taken
  · exact .ok ⟨all.memory, taken.1⟩ (taken.2 value rfl)
  · have leaves := inner { progress with replay := replay } ⟨all.memory, taken.1⟩
    simp only
    generalize body { progress with replay := replay } = reached at leaves ⊢
    cases leaves with
    | ok after good => exact .ok ⟨after.memory, after.replay.put good _ _⟩ good
    | fail after => exact .fail after
    | suspend after callee given => exact .suspend ⟨after.memory, after.replay.suspend _⟩ callee given

variable {surroundings : Surroundings σ}

theorem preserves_lookup (span : Span) (name : String) :
    Preserves holds holds (lookup surroundings span name) := by
  refine preserves_get fun progress all => ?_
  cases found : progress.memory.scopes.lookup surroundings.scope name with
  | none => exact .fail all
  | some value => exact .ok all (all.memory.scopes.lookup found)

theorem preserves_notifyAssign (name : Option String) (value : Value) :
    Preserves holds (fun _ => True) (notifyAssign surroundings name value) := by
  unfold notifyAssign
  split
  · exact preserves_get fun progress all => preserves_emit _ progress all
  · exact preserves_pure trivial

theorem preserves_notifyMutation (container : Node) :
    Preserves holds (fun _ => True) (notifyMutation surroundings container) :=
  preserves_get fun progress all => preserves_notifyAssign _ _ progress all

section
variable (common : Value.Common holds)
include common

theorem preserves_realize {computed : Computed} (new : computed.All holds) :
    Preserves holds holds (realize computed : Evaluation σ Value) := by
  intro progress all
  obtain ⟨heap, good, -⟩ := (Heap.all_makes common).realize all.memory.heap new
  exact .ok ⟨⟨heap, all.memory.scopes⟩, all.replay⟩ good

theorem preserves_print (arguments : List Value) : Preserves holds holds (print surroundings arguments) := by
  unfold print
  split
  · refine preserves_heap fun _ _ => ?_
    exact (preserves_emit _).bind fun _ _ => preserves_pure common.none
  · exact preserves_pure common.none

theorem preserves_length (span : Span) (nodes : List Node) (arguments : List Value) :
    Preserves holds holds (length span nodes arguments : Evaluation σ Value) := by
  unfold length
  split
  · refine preserves_heap fun heap _ => ?_
    refine (preserves_locate fun _ _ => trivial).andThen fun _ => ?_
    exact preserves_pure (common.number _)
  · exact preserves_fail

theorem preserves_callHost (span : Span) (name : String) (index : Nat) (arguments : List Value) :
    Preserves holds holds (callHost surroundings span name index arguments) := by
  refine preserves_heap fun heap good => ?_
  cases surroundings.hosts[index]? with
  | none => exact preserves_pure common.none
  | some run =>
    refine preserves_get fun progress all => ?_
    dsimp only
    rw [modify_bind_apply]
    generalize run progress.host (arguments.map (Value.toJson heap)) = answered
    obtain ⟨answer, host⟩ := answered
    dsimp only
    have told : Progress.All holds
        { progress with
          host := host
          calls := ⟨name, arguments.map (Value.toJson heap)⟩ :: progress.calls } :=
      ⟨all.memory, all.replay⟩
    rcases answer with message | _ | json
    · exact .fail told
    · exact .ok told common.none
    · dsimp only
      cases made : Value.ofJson heap json with
      | none => exact .fail told
      | some found =>
        obtain ⟨value, larger⟩ := found
        obtain ⟨whole, known, -⟩ := (Heap.all_makes common).ofJson good made
        exact .ok ⟨⟨whole, all.memory.scopes⟩, all.replay⟩ known

theorem preserves_callBuiltin (span : Span) (builtin : Builtin) (nodes : List Node)
    (arguments : List Value) :
    Preserves holds holds (callBuiltin surroundings span builtin nodes arguments) := by
  unfold callBuiltin
  split
  · exact preserves_print common arguments
  · exact preserves_length common span nodes arguments
  · exact preserves_callHost common span _ _ arguments

theorem preserves_apply (span : Span) (callee : Node) (nodes : List Node) {function : Value}
    {arguments : List Value} (known : holds function) (given : ∀ argument ∈ arguments, holds argument) :
    Preserves holds holds (apply surroundings span callee nodes function arguments) := by
  unfold apply
  split
  · split
    · exact fun _ all => .suspend all known given
    · exact preserves_fail
  · exact preserves_callBuiltin common span _ nodes arguments
  · exact preserves_heap fun _ _ => preserves_fail

theorem preserves_computed (spanOf : Culprit → Span) {compute : Heap → Except OperationFault Computed}
    (kept : ∀ heap : Heap, heap.Keeps holds → ∀ computed, compute heap = .ok computed →
      computed.All holds) :
    Preserves holds holds
      (do
        let computed ← locate spanOf (compute (← heap))
        realize computed : Evaluation σ Value) := by
  refine preserves_heap fun heap good => ?_
  refine Preserves.bind (preserves_locate (kept heap (good.keeps common))) fun computed new => ?_
  exact preserves_realize common new

theorem preserves_mutation (container : Node) (spanOf : Culprit → Span) {values : List Value}
    {change : Heap → Except OperationFault Heap}
    (changes : ∀ heap changed, change heap = .ok changed → heap.Changes values changed)
    (known : ∀ value ∈ values, holds value) :
    Preserves holds (fun _ => True)
      (do
        setHeap (← locate spanOf (change (← heap)))
        notifyMutation surroundings container) := by
  refine preserves_heap fun heap good => ?_
  have located : Preserves holds (Heap.All holds) (locate spanOf (change heap) : Evaluation σ Heap) :=
    preserves_locate fun changed found => good.changes common (changes heap changed found) known
  refine located.bind fun changed whole => Preserves.andThen (fun progress all => ?_) fun _ =>
    preserves_notifyMutation container
  exact .ok ⟨⟨whole, all.memory.scopes⟩, all.replay⟩ trivial

end

mutual

theorem preserves_eval (common : Value.Common holds) : ∀ node : Node, Preserves holds holds (eval surroundings node)
  | .literal _ value => by
    rw [eval]
    exact (preserves_pure (common.literal value)).remember
  | .identifier span name => by
    rw [eval]
    exact (preserves_lookup span name).remember
  | .unary _ operator operatorSpan operand => by
    rw [eval]
    refine ((preserves_eval common operand).bind fun value known => ?_).remember
    exact preserves_locate fun result found => common.unary found
  | .binary _ operator operatorSpan left right => by
    rw [eval]
    refine ((preserves_eval common left).bind fun first known => ?_).remember
    refine (preserves_eval common right).bind fun second other => ?_
    exact preserves_computed common _ fun heap keeps computed found =>
      Value.keeps_binary keeps known other found
  | .call span callee nodes => by
    rw [eval]
    refine ((preserves_eval common callee).bind fun function known => ?_).remember
    exact (preserves_evalAll common nodes).bind fun given all => preserves_apply common span callee nodes known all
  | .element span target index => by
    rw [eval]
    refine ((preserves_eval common target).bind fun container known => ?_).remember
    refine (preserves_eval common index).bind fun position _ => ?_
    exact preserves_heap fun heap all => preserves_locate fun value found =>
      Value.keeps_element (all.keeps common) known found
  | .slice span target start stop => by
    rw [eval]
    refine ((preserves_eval common target).bind fun container known => ?_).remember
    refine (preserves_eval common start).bind fun first _ => ?_
    refine (preserves_eval common stop).bind fun last _ => ?_
    exact preserves_computed common _ fun heap keeps computed found => Value.keeps_slice keeps known found
  | .array _ nodes => by
    rw [eval]
    refine ((preserves_evalAll common nodes).bind fun values all => ?_).remember
    have items : Computed.All holds (.items values) := all
    exact preserves_realize common items
  | .assignment .. | .choice .. | .loop .. | .definition .. | .result .. | .pass _ | .deletion .. => by
    rw [eval]
    exact preserves_fail.remember

theorem preserves_evalAll (common : Value.Common holds) : ∀ nodes : List Node,
    Preserves holds (fun values => ∀ value ∈ values, holds value) (evalAll surroundings nodes)
  | [] => by
    rw [evalAll]
    exact preserves_pure (by simp)
  | node :: nodes => by
    rw [evalAll]
    refine (preserves_eval common node).bind fun value known => ?_
    refine (preserves_evalAll common nodes).bind fun values all => ?_
    exact preserves_pure (List.forall_mem_cons.2 ⟨known, all⟩)

end

section
variable (common : Value.Common holds)
include common

theorem preserves_condition (node : Node) :
    Preserves holds (fun _ => True) (condition surroundings node) := by
  refine (preserves_eval common node).bind fun value _ => ?_
  cases value.truth? with
  | some truth => exact preserves_pure trivial
  | none => exact preserves_fail

theorem preserves_firstBranch (branches : List Branch) :
    Preserves holds (fun _ => True) (firstBranch surroundings branches) := by
  induction branches with
  | nil => exact preserves_pure trivial
  | cons branch others ih =>
    refine (preserves_condition common branch.condition).bind fun truth _ => ?_
    cases truth with
    | true => exact preserves_pure trivial
    | false => exact ih

theorem preserves_assignTo (target valueNode : Node) :
    Preserves holds (fun _ => True) (assignTo surroundings target valueNode) := by
  refine (preserves_eval common valueNode).bind fun value assigned => ?_
  cases target with
  | identifier _ name =>
    exact (preserves_assign _ name assigned).bind fun _ _ => preserves_notifyAssign _ value
  | element span container index =>
    refine (preserves_eval common container).bind fun root known => ?_
    refine (preserves_eval common index).bind fun _ _ => ?_
    refine preserves_mutation common container _ (fun heap changed => Value.changes_setElement) ?_
    simpa using ⟨known, assigned⟩
  | slice span container start stop =>
    refine (preserves_eval common container).bind fun root known => ?_
    refine (preserves_eval common start).bind fun _ _ => ?_
    refine (preserves_eval common stop).bind fun _ _ => ?_
    refine preserves_mutation common container _ (fun heap changed => Value.changes_setSlice) ?_
    simpa using ⟨known, assigned⟩
  | literal | unary | binary | call | array | assignment | choice | loop | definition | result
  | pass | deletion => exact preserves_fail

theorem preserves_delete (target : Node) : Preserves holds (fun _ => True) (delete surroundings target) := by
  cases target with
  | element _ container index =>
    refine (preserves_eval common container).bind fun root known => ?_
    refine (preserves_eval common index).bind fun _ _ => ?_
    refine preserves_mutation common container _ (fun heap changed => Value.changes_deleteElement) ?_
    simpa using known
  | slice _ container start stop =>
    refine (preserves_eval common container).bind fun root known => ?_
    refine (preserves_eval common start).bind fun _ _ => ?_
    refine (preserves_eval common stop).bind fun _ _ => ?_
    refine preserves_mutation common container _ (fun heap changed => Value.changes_deleteSlice) ?_
    simpa using known
  | literal | identifier | unary | binary | call | array | assignment | choice | loop | definition
  | result | pass | deletion => exact preserves_fail

end

theorem preserves_define (name : String) (parameters : List String) (body : Block)
    (made : ∀ closure : Closure, closure.body = body.statements → holds (.function (.closure closure))) :
    Preserves holds (fun _ => True) (define surroundings name parameters body) := by
  refine preserves_get fun progress all => ?_
  dsimp only
  rw [modify_bind_apply]
  have captured : Progress.All holds
      { progress with
        memory := ⟨progress.memory.heap.identify.2,
          progress.memory.scopes.capture surroundings.scope⟩ } :=
    ⟨⟨all.memory.heap, all.memory.scopes.gone (progress.memory.scopes.spares_capture _)⟩, all.replay⟩
  exact (preserves_assign surroundings.scope name (made _ rfl)).bind
    (fun _ _ => preserves_notifyAssign (some name) _) _ captured

theorem preserves_exec (common : Value.Common holds) (node : Node)
    (made : ∀ (span : Span) (name : String) (parameters : List String) (body : Block),
      node = .definition span name parameters body →
        ∀ closure : Closure, closure.body = body.statements → holds (.function (.closure closure))) :
    Preserves holds (fun flow => ∀ value, flow = .leave value → holds value) (exec surroundings node) := by
  have stays : ∀ {flow : Flow}, (∀ value, flow ≠ .leave value) →
      Preserves holds (fun flow => ∀ value, flow = .leave value → holds value)
        (pure flow : Evaluation σ Flow) :=
    fun other => preserves_pure fun value same => absurd same (other value)
  cases node with
  | assignment _ target value =>
    exact (preserves_assignTo common target value).bind fun _ _ => stays (by simp)
  | choice _ first body others otherwise =>
    refine (preserves_firstBranch common (.of first body :: others)).bind fun chosen _ => ?_
    cases chosen with
    | some block => exact stays (by simp)
    | none => cases otherwise <;> exact stays (by simp)
  | loop _ header body =>
    refine (preserves_condition common header).bind fun truth _ => ?_
    cases truth <;> exact stays (by simp)
  | definition span name parameters body =>
    exact (preserves_define name parameters body (made span name parameters body rfl)).bind
      fun _ _ => stays (by simp)
  | result _ value =>
    cases value with
    | none =>
      refine preserves_pure fun value same => ?_
      cases same
      exact common.none
    | some value =>
      refine (preserves_eval common value).bind fun result known => preserves_pure fun value same => ?_
      cases same
      exact known
  | pass => exact stays (by simp)
  | deletion _ target => exact (preserves_delete common target).bind fun _ _ => stays (by simp)
  | literal | identifier | unary | binary | call | element | slice | array =>
    exact (preserves_eval common _).bind fun _ _ => stays (by simp)

end Evaluation

end TabScript
