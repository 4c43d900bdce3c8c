import TabScript.Proofs.Frames.Arena
import TabScript.Proofs.Replay.Order
import TabScript.Proofs.Values.Keeps

/-! What a statement writes to.

Expressions make new arrays and leave everything else as it is. A statement binds names in its own scope
only, and it writes to a scope or an array when nothing can go wrong any more. -/

set_option autoImplicit false

namespace TabScript

variable {σ α β : Type}

structure Heap.Extends (before after : Heap) : Prop where
  size_le : before.arrays.size ≤ after.arrays.size
  items_eq {ref : ArrayRef} : before.Has ref → after.items ref = before.items ref

namespace Heap

variable {before between after : Heap}

theorem extends_refl (heap : Heap) : heap.Extends heap := ⟨Nat.le_refl _, fun _ => rfl⟩

theorem Extends.has {ref : ArrayRef} (extension : before.Extends after) (present : before.Has ref) :
    after.Has ref :=
  Nat.lt_of_lt_of_le present extension.size_le

theorem Extends.trans (first : before.Extends between) (second : between.Extends after) :
    before.Extends after :=
  ⟨Nat.le_trans first.size_le second.size_le, fun present =>
    (second.items_eq (first.has present)).trans (first.items_eq present)⟩

theorem extends_allocate (heap : Heap) (items : List Value) : heap.Extends (heap.allocate items).2 :=
  ⟨by simp [allocate], fun present => heap.items_allocate_of_has items present⟩

/-- Arrays made one after the other leave the first ones as they were. -/
theorem extends_makes (start : Heap) : Makes start.Extends fun _ _ => True where
  keeps _ := ⟨⟨trivial, fun _ => trivial, fun _ => trivial, fun _ => trivial⟩, fun _ _ _ => trivial⟩
  allocate extension _ := ⟨extension.trans (extends_allocate _ _), trivial⟩
  grows _ _ _ := trivial

end Heap

/-- There may be new arrays, but all scopes and the arrays that were there are as they were. -/
structure Memory.Extends (before after : Memory) : Prop where
  heap : before.heap.Extends after.heap
  scopes : after.scopes = before.scopes

namespace Memory

variable {before between after : Memory}

theorem extends_refl (memory : Memory) : memory.Extends memory := ⟨memory.heap.extends_refl, rfl⟩

theorem Extends.trans (first : before.Extends between) (second : between.Extends after) :
    before.Extends after :=
  ⟨first.heap.trans second.heap, second.scopes.trans first.scopes⟩

theorem Extends.spares (extension : before.Extends after) (opened : List ScopeId) :
    before.scopes.Spares opened after.scopes := by
  rw [extension.scopes]
  exact before.scopes.spares_refl.widen (by simp)

end Memory

namespace Evaluation

/-- Nothing but new arrays comes of the computation, however it ends. -/
def Quiet (part : Evaluation σ α) : Prop :=
  ∀ progress : Progress σ, progress.memory.Extends (part progress).2.memory

def Passive (part : Evaluation σ α) : Prop :=
  ∀ progress : Progress σ, ∃ value, (part progress).1 = .ok value ∧ (part progress).2.memory = progress.memory

/-- The computation binds names in one scope only. When it is cut short, nothing but new arrays has come
of it. -/
structure Careful (scope : ScopeId) (part : Evaluation σ α) : Prop where
  spares (progress : Progress σ) : progress.memory.scopes.Spares [scope] (part progress).2.memory.scopes
  undone {progress : Progress σ} {interrupt : Interrupt} : (part progress).1 = .error interrupt →
    progress.memory.Extends (part progress).2.memory

variable {scope : ScopeId} {first : Evaluation σ α} {next : α → Evaluation σ β}

theorem Quiet.bind (start : Quiet first) (rest : ∀ value, Quiet (next value)) :
    Quiet (first >>= next) := by
  intro progress
  rw [bind_apply]
  have begun := start progress
  rcases reached : first progress with ⟨_ | value, between⟩ <;> rw [reached] at begun
  · exact begun
  · exact begun.trans (rest value between)

theorem Quiet.careful {part : Evaluation σ α} (quiet : Quiet part) : Careful scope part :=
  ⟨fun progress => (quiet progress).spares _, fun {progress} _ _ => quiet progress⟩

theorem Quiet.bind_careful (start : Quiet first) (rest : ∀ value, Careful scope (next value)) :
    Careful scope (first >>= next) := by
  constructor
  · intro progress
    rw [bind_apply]
    have begun := start progress
    rcases reached : first progress with ⟨_ | value, between⟩ <;> rw [reached] at begun
    · exact begun.spares _
    · exact ((begun.spares []).trans ((rest value).spares between)).widen (by simp)
  · intro progress interrupt ended
    rw [bind_apply] at ended ⊢
    have begun := start progress
    rcases reached : first progress with ⟨_ | value, between⟩ <;> rw [reached] at ended begun
    · exact begun
    · exact begun.trans ((rest value).undone ended)

/-- Nothing goes wrong after something was written. -/
theorem Careful.bind_passive (start : Careful scope first) (rest : ∀ value, Passive (next value)) :
    Careful scope (first >>= next) := by
  constructor
  · intro progress
    rw [bind_apply]
    have begun := start.spares progress
    rcases reached : first progress with ⟨_ | value, between⟩ <;> rw [reached] at begun
    · exact begun
    · obtain ⟨result, -, same⟩ := rest value between
      change Arena.Spares _ _ (next value between).2.memory.scopes
      rw [same]
      exact begun
  · intro progress interrupt ended
    rw [bind_apply] at ended ⊢
    have begun := @start.undone progress
    rcases reached : first progress with ⟨fault | value, between⟩ <;> rw [reached] at ended begun
    · exact begun rfl
    · obtain ⟨result, done, -⟩ := rest value between
      change (next value between).1 = _ at ended
      rw [done] at ended
      cases ended

theorem passive_pure (value : α) : Passive (pure value : Evaluation σ α) :=
  fun _ => ⟨value, rfl, rfl⟩

theorem quiet_pure (value : α) : Quiet (pure value : Evaluation σ α) :=
  fun progress => progress.memory.extends_refl

theorem quiet_fail (cause : Cause) (span : Span) : Quiet (fail cause span : Evaluation σ α) :=
  fun progress => progress.memory.extends_refl

theorem quiet_heap : Quiet (heap : Evaluation σ Heap) :=
  fun progress => progress.memory.extends_refl

theorem quiet_emit (event : Event) : Quiet (emit event : Evaluation σ Unit) :=
  fun progress => progress.memory.extends_refl

theorem quiet_locate (spanOf : Culprit → Span) (result : Except OperationFault α) :
    Quiet (locate spanOf result : Evaluation σ α) := by
  cases result with
  | ok value => exact quiet_pure value
  | error fault => exact quiet_fail _ _

theorem quiet_realize (computed : Computed) : Quiet (realize computed : Evaluation σ Value) := by
  intro progress
  have all : computed.All fun _ => True := by
    cases computed with
    | value value => trivial
    | items items => exact fun _ _ => trivial
  obtain ⟨extension, -⟩ := (Heap.extends_makes progress.memory.heap).realize
    progress.memory.heap.extends_refl all
  exact ⟨extension, rfl⟩

theorem quiet_get {next : Progress σ → Evaluation σ α} (rest : ∀ progress, Quiet (next progress)) :
    Quiet (get >>= next) := fun progress => rest progress progress

theorem Quiet.remember {body : Evaluation σ Value} (inner : Quiet body) : Quiet (remember body) := by
  intro progress
  unfold Evaluation.remember
  rcases progress.replay.take with ⟨value | slot, replay⟩
  · exact progress.memory.extends_refl
  · have evaluated := inner { progress with replay := replay }
    dsimp only
    generalize body { progress with replay := replay } = reached at evaluated ⊢
    rcases reached with ⟨(_ | _) | _, after⟩ <;> exact evaluated

variable (surroundings : Surroundings σ)

theorem quiet_lookup (span : Span) (name : String) : Quiet (lookup surroundings span name) := by
  refine quiet_get fun progress => ?_
  split
  · exact quiet_pure _
  · exact quiet_fail _ _

theorem quiet_print (arguments : List Value) : Quiet (print surroundings arguments) := by
  unfold print
  split
  · exact quiet_heap.bind fun _ => (quiet_emit _).bind fun _ => quiet_pure _
  · exact quiet_pure _

theorem quiet_length (span : Span) (nodes : List Node) (arguments : List Value) :
    Quiet (length span nodes arguments : Evaluation σ Value) := by
  unfold length
  split
  · exact quiet_heap.bind fun _ => (quiet_locate _ _).bind fun _ => quiet_pure _
  · exact quiet_fail _ _

theorem quiet_callHost (span : Span) (name : String) (index : Nat) (arguments : List Value) :
    Quiet (callHost surroundings span name index arguments) := by
  intro progress
  unfold callHost Evaluation.heap
  simp only [bind_assoc, pure_bind, get_bind_apply]
  cases surroundings.hosts[index]? with
  | none => exact progress.memory.extends_refl
  | some run =>
    dsimp only
    rw [get_bind_apply, modify_bind_apply]
    generalize run progress.host (arguments.map (Value.toJson progress.memory.heap)) = answered
    rcases answered with ⟨message | _ | json, host⟩
    · exact progress.memory.extends_refl
    · exact progress.memory.extends_refl
    · dsimp only
      cases made : Value.ofJson progress.memory.heap json with
      | none => exact progress.memory.extends_refl
      | some found =>
        obtain ⟨extension, -⟩ := (Heap.extends_makes progress.memory.heap).ofJson
          progress.memory.heap.extends_refl made
        exact ⟨extension, rfl⟩

theorem quiet_apply (span : Span) (callee : Node) (nodes : List Node) (function : Value)
    (arguments : List Value) : Quiet (apply surroundings span callee nodes function arguments) := by
  unfold apply
  split
  · split
    · exact fun progress => progress.memory.extends_refl
    · exact quiet_fail _ _
  · unfold callBuiltin
    split
    · exact quiet_print surroundings arguments
    · exact quiet_length span nodes arguments
    · exact quiet_callHost surroundings span _ _ arguments
  · exact quiet_heap.bind fun _ => quiet_fail _ _

theorem quiet_readings : Readings surroundings fun _ part => Quiet part where
  pure := quiet_pure
  fail cause span _ := quiet_fail cause span
  heap := quiet_heap
  realize := quiet_realize
  lookup := quiet_lookup surroundings

theorem Composed.quiet {inside : Bool} {part : Evaluation σ α}
    (parts : Composed (fun _ part => Quiet part) Quiet inside α part) : Quiet part := by
  induction parts with
  | action good => exact good
  | ask good => exact good
  | bind _ _ start rest => exact start.bind rest
  | expression _ body => exact body.remember

theorem quiet_eval (node : Node) : Quiet (eval surroundings node) := by
  have parts : Composed (fun _ part => Quiet part) Quiet false Value (eval surroundings node) :=
    composed_eval (quiet_readings surroundings) (quiet_apply surroundings) node
  exact parts.quiet

theorem quiet_condition (node : Node) : Quiet (condition surroundings node) := by
  have parts : Composed (fun _ part => Quiet part) Quiet false Bool (condition surroundings node) :=
    composed_condition (quiet_readings surroundings) (quiet_apply surroundings) node
  exact parts.quiet

theorem quiet_firstBranch (branches : List Branch) : Quiet (firstBranch surroundings branches) := by
  have parts : Composed (fun _ part => Quiet part) Quiet false (Option Block)
      (firstBranch surroundings branches) :=
    composed_firstBranch (quiet_readings surroundings) (quiet_apply surroundings) branches
  exact parts.quiet

/-- Hooks are told later, so that nothing can go wrong here. -/
theorem passive_notifyAssign (name : Option String) (value : Value) :
    Passive (notifyAssign surroundings name value) := by
  unfold notifyAssign
  split
  · exact fun _ => ⟨_, rfl, rfl⟩
  · exact passive_pure _

theorem passive_notifyMutation (container : Node) : Passive (notifyMutation surroundings container) :=
  fun progress => passive_notifyAssign surroundings _ _ progress

theorem careful_assign (scope : ScopeId) (name : String) (value : Value) :
    Careful scope (assign scope name value : Evaluation σ Unit) :=
  ⟨fun progress => progress.memory.scopes.spares_assign scope name value,
    fun impossible => by cases impossible⟩

theorem careful_setHeap (scope : ScopeId) (changed : Heap) :
    Careful scope (setHeap changed : Evaluation σ Unit) :=
  ⟨fun progress => progress.memory.scopes.spares_refl.widen (by simp),
    fun impossible => by cases impossible⟩

theorem careful_mutation (container : Node) (spanOf : Culprit → Span)
    (change : Heap → Except OperationFault Heap) :
    Careful surroundings.scope
      (do
        setHeap (← locate spanOf (change (← heap)))
        notifyMutation surroundings container) :=
  quiet_heap.bind_careful fun _ => (quiet_locate _ _).bind_careful fun changed =>
    (careful_setHeap _ changed).bind_passive fun _ => passive_notifyMutation surroundings container

theorem careful_assignTo (target valueNode : Node) :
    Careful surroundings.scope (assignTo surroundings target valueNode) := by
  refine (quiet_eval surroundings valueNode).bind_careful fun value => ?_
  cases target with
  | identifier _ name =>
    exact (careful_assign _ name value).bind_passive fun _ =>
      passive_notifyAssign surroundings (some name) value
  | element span container index =>
    exact (quiet_eval surroundings container).bind_careful fun _ =>
      (quiet_eval surroundings index).bind_careful fun _ => careful_mutation surroundings _ _ _
  | slice span container start stop =>
    exact (quiet_eval surroundings container).bind_careful fun _ =>
      (quiet_eval surroundings start).bind_careful fun _ =>
        (quiet_eval surroundings stop).bind_careful fun _ => careful_mutation surroundings _ _ _
  | literal | unary | binary | call | array | assignment | choice | loop | definition | result
  | pass | deletion => exact (quiet_fail _ _).careful

theorem careful_delete (target : Node) :
    Careful surroundings.scope (delete surroundings target) := by
  cases target with
  | element span container index =>
    exact (quiet_eval surroundings container).bind_careful fun _ =>
      (quiet_eval surroundings index).bind_careful fun _ => careful_mutation surroundings _ _ _
  | slice span container start stop =>
    exact (quiet_eval surroundings container).bind_careful fun _ =>
      (quiet_eval surroundings start).bind_careful fun _ =>
        (quiet_eval surroundings stop).bind_careful fun _ => careful_mutation surroundings _ _ _
  | literal | identifier | unary | binary | call | array | assignment | choice | loop | definition
  | result | pass | deletion => exact (quiet_fail _ _).careful

theorem careful_define (name : String) (parameters : List String) (body : Block) :
    Careful surroundings.scope (define surroundings name parameters body) := by
  refine ⟨fun progress => ?_, fun {progress interrupt} ended => ?_⟩
  · have captured := progress.memory.scopes.spares_capture surroundings.scope
    let function : Value := .function (.closure
      ⟨name, parameters, body.statements, surroundings.scope, progress.memory.identify.1⟩)
    have bound : Careful surroundings.scope (do
        assign surroundings.scope name function
        notifyAssign surroundings (some name) function) :=
      (careful_assign _ name function).bind_passive fun _ => passive_notifyAssign surroundings _ _
    have wrote := bound.spares
      { progress with
        memory := ⟨progress.memory.heap.identify.2,
          progress.memory.scopes.capture surroundings.scope⟩ }
    exact (captured.trans wrote).widen (by simp)
  · unfold define at ended
    rw [get_bind_apply] at ended
    dsimp only at ended
    rw [modify_bind_apply, bind_apply] at ended
    -- nothing that it does can be cut short
    obtain ⟨result, done, -⟩ := passive_notifyAssign surroundings (some name) _ _
    exact absurd (done.symm.trans ended) (by simp)

theorem careful_exec (node : Node) : Careful surroundings.scope (exec surroundings node) := by
  -- each statement evaluates its expressions, then writes once, and then tells the hooks
  cases node with
  | assignment _ target value =>
    exact (careful_assignTo surroundings target value).bind_passive fun _ => passive_pure _
  | choice _ first body others otherwise =>
    refine (quiet_firstBranch surroundings (.of first body :: others)).bind_careful fun chosen => ?_
    split
    · exact (quiet_pure _).careful
    · split <;> exact (quiet_pure _).careful
  | loop _ header body =>
    refine (quiet_condition surroundings header).bind_careful fun truth => ?_
    split <;> exact (quiet_pure _).careful
  | definition _ name parameters body =>
    exact (careful_define surroundings name parameters body).bind_passive fun _ => passive_pure _
  | result _ value =>
    cases value with
    | none => exact (quiet_pure _).careful
    | some value =>
      exact (quiet_eval surroundings value).bind_careful fun _ => (quiet_pure _).careful
  | pass => exact (quiet_pure _).careful
  | deletion _ target =>
    exact (careful_delete surroundings target).bind_passive fun _ => passive_pure _
  | literal | identifier | unary | binary | call | element | slice | array =>
    exact (quiet_eval surroundings _).bind_careful fun _ => (quiet_pure _).careful

theorem quiet_result (span : Span) (operand : Option Node) :
    Quiet (exec surroundings (.result span operand)) := by
  cases operand with
  | none => exact quiet_pure _
  | some value => exact (quiet_eval surroundings value).bind fun _ => quiet_pure _

end Evaluation

end TabScript
