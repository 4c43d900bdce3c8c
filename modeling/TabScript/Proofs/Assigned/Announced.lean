import TabScript.Proofs.Assigned.Anchored
import TabScript.Proofs.Hoard.Arena
import TabScript.Proofs.Replay.Composed

/-! What a statement tells of an assignment.

Expressions write to no scope and tell of no assignment. The last act of a statement may do both, and what it
tells is what is there when the statement is done. -/

set_option autoImplicit false

namespace TabScript

variable {σ α β : Type}

def Node.binds? : Node → Option String
  | .assignment _ (.identifier _ name) _ => some name
  | .definition _ name _ _ => some name
  | _ => none

def Arena.Binds (arena : Arena) (id : ScopeId) (name : String) (value : Value) : Prop :=
  ∃ scope, arena.scope? id = some scope ∧ scope.bindings.get? name = some value

theorem Arena.binds_assign {arena : Arena} {id : ScopeId} (present : (arena.scope? id).isSome)
    (name : String) (value : Value) : (arena.assign id name value).Binds id name value := by
  obtain ⟨scope, found⟩ := Option.isSome_iff_exists.1 present
  refine ⟨{ scope with bindings := scope.bindings.set name value }, ?_, ?_⟩
  · rw [assign, scope?_modify, if_pos rfl, found]
    rfl
  · exact Bindings.get?_set_same _ _ _

theorem Arena.isSome_capture (arena : Arena) (id : ScopeId) :
    ((arena.capture id).scope? id).isSome = (arena.scope? id).isSome := by
  rw [capture, scope?_modify, if_pos rfl, Option.isSome_map]

structure Progress.Clear (arena : Arena) (progress : Progress σ) : Prop where
  scopes : progress.memory.scopes = arena
  silent : ∀ event ∈ progress.events, event.kind ≠ .assign

namespace Evaluation

def Silent (part : Evaluation σ α) : Prop :=
  ∀ (arena : Arena) (progress : Progress σ), progress.Clear arena → (part progress).2.Clear arena

theorem Silent.bind {first : Evaluation σ α} {next : α → Evaluation σ β} (start : Silent first)
    (rest : ∀ value, Silent (next value)) : Silent (first >>= next) := by
  intro arena progress clear
  rw [bind_apply]
  have between := start arena progress clear
  rcases reached : first progress with ⟨_ | value, after⟩ <;> rw [reached] at between
  · exact between
  · exact rest value arena after between

theorem Silent.remember {body : Evaluation σ Value} (inner : Silent body) : Silent (remember body) := by
  intro arena progress clear
  unfold Evaluation.remember
  rcases progress.replay.take with ⟨value | slot, replay⟩
  · exact ⟨clear.scopes, clear.silent⟩
  · have after := inner arena { progress with replay := replay } ⟨clear.scopes, clear.silent⟩
    dsimp only
    generalize body { progress with replay := replay } = reached at after ⊢
    rcases reached with ⟨(_ | _) | _, later⟩ <;> exact ⟨after.scopes, after.silent⟩

theorem silent_pure (value : α) : Silent (pure value : Evaluation σ α) := fun _ _ clear => clear

theorem silent_fail (cause : Cause) (span : Span) : Silent (fail cause span : Evaluation σ α) :=
  fun _ _ clear => clear

theorem silent_heap : Silent (heap : Evaluation σ Heap) := fun _ _ clear => clear

theorem silent_locate (spanOf : Culprit → Span) (result : Except OperationFault α) :
    Silent (locate spanOf result : Evaluation σ α) := by
  cases result with
  | ok value => exact silent_pure value
  | error fault => exact silent_fail _ _

theorem silent_realize (computed : Computed) : Silent (realize computed : Evaluation σ Value) :=
  fun _ _ clear => ⟨clear.scopes, clear.silent⟩

theorem silent_setHeap (changed : Heap) : Silent (setHeap changed : Evaluation σ Unit) :=
  fun _ _ clear => ⟨clear.scopes, clear.silent⟩

theorem silent_emit {event : Event} (other : event.kind ≠ .assign) :
    Silent (emit event : Evaluation σ Unit) := fun _ _ clear =>
  ⟨clear.scopes, List.forall_mem_cons.2 ⟨other, clear.silent⟩⟩

theorem silent_get {next : Progress σ → Evaluation σ α} (rest : ∀ progress, Silent (next progress)) :
    Silent (get >>= next) := fun arena progress => rest progress arena progress

variable (surroundings : Surroundings σ)

theorem silent_lookup (span : Span) (name : String) : Silent (lookup surroundings span name) := by
  refine silent_get fun progress => ?_
  split
  · exact silent_pure _
  · exact silent_fail _ _

theorem silent_print (arguments : List Value) : Silent (print surroundings arguments) := by
  unfold print
  split
  · exact silent_heap.bind fun _ => (silent_emit fun impossible => by cases impossible).bind fun _ => silent_pure _
  · exact silent_pure _

theorem silent_length (span : Span) (nodes : List Node) (arguments : List Value) :
    Silent (length span nodes arguments : Evaluation σ Value) := by
  unfold length
  split
  · exact silent_heap.bind fun _ => (silent_locate _ _).bind fun _ => silent_pure _
  · exact silent_fail _ _

theorem silent_callHost (span : Span) (name : String) (index : Nat) (arguments : List Value) :
    Silent (callHost surroundings span name index arguments) := by
  refine silent_heap.bind fun heap => ?_
  split
  · exact silent_pure _
  · rename_i run _
    refine silent_get fun progress => ?_
    refine Silent.bind (fun _ _ clear => ⟨clear.scopes, clear.silent⟩) fun _ => ?_
    split
    · exact silent_fail _ _
    · exact silent_pure _
    · split
      · exact (silent_setHeap _).bind fun _ => silent_pure _
      · exact silent_fail _ _

theorem silent_apply (span : Span) (callee : Node) (nodes : List Node) (function : Value)
    (arguments : List Value) : Silent (apply surroundings span callee nodes function arguments) := by
  unfold apply
  split
  · split
    · exact fun _ _ clear => clear
    · exact silent_fail _ _
  · unfold callBuiltin
    split
    · exact silent_print surroundings arguments
    · exact silent_length span nodes arguments
    · exact silent_callHost surroundings span _ _ arguments
  · exact silent_heap.bind fun _ => silent_fail _ _

theorem silent_readings : Readings surroundings fun _ part => Silent part where
  pure := silent_pure
  fail cause span _ := silent_fail cause span
  heap := silent_heap
  realize := silent_realize
  lookup := silent_lookup surroundings

theorem Composed.silent {inside : Bool} {part : Evaluation σ α}
    (parts : Composed (fun _ part => Silent part) Silent inside α part) : Silent part := by
  induction parts with
  | action good => exact good
  | ask good => exact good
  | bind _ _ start rest => exact start.bind rest
  | expression _ body => exact body.remember

theorem silent_eval (node : Node) : Silent (eval surroundings node) := by
  have parts : Composed (fun _ part => Silent part) Silent false Value (eval surroundings node) :=
    composed_eval (silent_readings surroundings) (silent_apply surroundings) node
  exact parts.silent

theorem silent_condition (node : Node) : Silent (condition surroundings node) := by
  have parts : Composed (fun _ part => Silent part) Silent false Bool (condition surroundings node) :=
    composed_condition (silent_readings surroundings) (silent_apply surroundings) node
  exact parts.silent

theorem silent_firstBranch (branches : List Branch) : Silent (firstBranch surroundings branches) := by
  have parts : Composed (fun _ part => Silent part) Silent false (Option Block)
      (firstBranch surroundings branches) :=
    composed_firstBranch (silent_readings surroundings) (silent_apply surroundings) branches
  exact parts.silent

end Evaluation

/-- What a statement tells of an assignment in its scope, in the memory that it leaves: what the scope shows
then, and the JSON form of a value. Either the scope binds the name to the value, or the value is the one
that the name has, which is the variable that an update started at. -/
def Node.News (scope : ScopeId) (arena : Arena) (node : Node) (name : Option String) (json : Json)
    (shown : Snapshot) (memory : Memory) : Prop :=
  shown = memory.scopes.snapshot memory.heap scope ∧
    ∃ value, json = value.toJson memory.heap ∧
      ((∃ bound, name = some bound ∧ node.binds? = some bound ∧
          ((arena.scope? scope).isSome → memory.scopes.Binds scope bound value)) ∨
        name = node.changes? ∧ value = (name.bind (memory.scopes.lookup scope)).getD .none)

namespace Evaluation

/-- If no assignment was told before, then one is told only with this result, and as it should be. -/
def Tells (arena : Arena) (news : Option String → Json → Snapshot → Memory → Prop) (result : α)
    (part : Evaluation σ α) : Prop :=
  ∀ progress, progress.Clear arena → ∀ name json shown,
    .assign name json shown ∈ (part progress).2.events →
      (part progress).1 = .ok result ∧ news name json shown (part progress).2.memory

variable {arena : Arena} {news : Option String → Json → Snapshot → Memory → Prop}

theorem Silent.tells {part : Evaluation σ α} (silent : Silent part) (result : α) :
    Tells arena news result part := fun progress clear _ _ _ told =>
  ((silent arena progress clear).silent _ told rfl).elim

theorem Silent.bind_tells {first : Evaluation σ α} {next : α → Evaluation σ β} {result : β}
    (start : Silent first) (rest : ∀ value, Tells arena news result (next value)) :
    Tells arena news result (first >>= next) := by
  intro progress clear name json shown told
  rw [bind_apply] at told ⊢
  have between := start arena progress clear
  rcases reached : first progress with ⟨_ | value, after⟩ <;> rw [reached] at between told
  · exact (between.silent _ told rfl).elim
  · exact rest value after between name json shown told

theorem Tells.map {part : Evaluation σ α} {value : α} (tells : Tells arena news value part)
    (change : α → β) : Tells arena news (change value) (part >>= fun found => pure (change found)) := by
  intro progress clear name json shown told
  rw [bind_apply] at told ⊢
  have announced := tells progress clear name json shown
  rcases reached : part progress with ⟨_ | found, after⟩ <;> rw [reached] at announced told
  · cases (announced told).1
  · obtain ⟨same, good⟩ := announced told
    cases same
    exact ⟨rfl, good⟩

variable (surroundings : Surroundings σ)

theorem told_notifyAssign {progress : Progress σ} (clear : progress.Clear arena)
    {name told : Option String} {value : Value} {json : Json} {shown : Snapshot}
    (inside : .assign told json shown ∈ (notifyAssign surroundings name value progress).2.events) :
    (notifyAssign surroundings name value progress).1 = .ok () ∧ told = name ∧
      json = value.toJson progress.memory.heap ∧
      shown = progress.memory.scopes.snapshot progress.memory.heap surroundings.scope ∧
      (notifyAssign surroundings name value progress).2.memory = progress.memory := by
  unfold notifyAssign at inside ⊢
  split at inside
  · rename_i wanted
    rw [if_pos wanted]
    rcases List.mem_cons.1 inside with same | earlier
    · cases same
      exact ⟨rfl, rfl, rfl, rfl, rfl⟩
    · exact (clear.silent _ earlier rfl).elim
  · exact (clear.silent _ inside rfl).elim

theorem tells_binding {captured : Arena} {node : Node} {name : String}
    (binds : node.binds? = some name)
    (same : (captured.scope? surroundings.scope).isSome = (arena.scope? surroundings.scope).isSome)
    (value : Value) :
    Tells captured (node.News surroundings.scope arena) () (do
      assign surroundings.scope name value
      notifyAssign surroundings (some name) value) := by
  intro progress clear told json shown inside
  let bound : Progress σ :=
    { progress with memory := progress.memory.assign surroundings.scope name value }
  have clear' : bound.Clear (captured.assign surroundings.scope name value) := by
    refine ⟨?_, clear.silent⟩
    rw [← clear.scopes]
    rfl
  change .assign told json shown ∈ (notifyAssign surroundings (some name) value bound).2.events
    at inside
  change (notifyAssign surroundings (some name) value bound).1 = _ ∧
    Node.News _ _ _ _ _ _ (notifyAssign surroundings (some name) value bound).2.memory
  obtain ⟨done, rfl, made, pictured, memory⟩ := told_notifyAssign surroundings clear' inside
  rw [memory]
  refine ⟨done, pictured, value, made, .inl ⟨name, rfl, binds, fun present => ?_⟩⟩
  rw [clear'.scopes]
  exact Arena.binds_assign (same ▸ present) name value

/-- An array is changed, and then the variable is told that the update started at. -/
theorem tells_mutation {node container : Node} (changes : node.changes? = rootName? container)
    (spanOf : Culprit → Span) (change : Heap → Except OperationFault Heap) :
    Tells arena (node.News surroundings.scope arena) () (do
      setHeap (← locate spanOf (change (← heap)))
      notifyMutation surroundings container) := by
  refine silent_heap.bind_tells fun _ => (silent_locate _ _).bind_tells fun changed =>
    (silent_setHeap changed).bind_tells fun _ progress clear told json shown inside => ?_
  obtain ⟨done, rfl, made, pictured, memory⟩ := told_notifyAssign surroundings clear inside
  refine ⟨done, ?_⟩
  change Node.News _ _ _ _ _ _ (notifyAssign surroundings _ _ progress).2.memory
  rw [memory]
  exact ⟨pictured, _, made, .inr ⟨changes.symm, rfl⟩⟩

theorem tells_assignTo (span : Span) (target valueNode : Node) :
    Tells arena ((Node.assignment span target valueNode).News surroundings.scope arena) ()
      (assignTo surroundings target valueNode) := by
  refine (silent_eval surroundings valueNode).bind_tells fun value => ?_
  cases target with
  | identifier _ name => exact tells_binding surroundings rfl rfl value
  | element _ container index =>
    exact (silent_eval surroundings container).bind_tells fun _ =>
      (silent_eval surroundings index).bind_tells fun _ => tells_mutation surroundings rfl _ _
  | slice _ container start stop =>
    exact (silent_eval surroundings container).bind_tells fun _ =>
      (silent_eval surroundings start).bind_tells fun _ =>
        (silent_eval surroundings stop).bind_tells fun _ => tells_mutation surroundings rfl _ _
  | literal | unary | binary | call | array | assignment | choice | loop | definition | result
  | pass | deletion => exact (silent_fail _ _).tells _

theorem tells_delete (span : Span) (target : Node) :
    Tells arena ((Node.deletion span target).News surroundings.scope arena) ()
      (delete surroundings target) := by
  cases target with
  | element _ container index =>
    exact (silent_eval surroundings container).bind_tells fun _ =>
      (silent_eval surroundings index).bind_tells fun _ => tells_mutation surroundings rfl _ _
  | slice _ container start stop =>
    exact (silent_eval surroundings container).bind_tells fun _ =>
      (silent_eval surroundings start).bind_tells fun _ =>
        (silent_eval surroundings stop).bind_tells fun _ => tells_mutation surroundings rfl _ _
  | literal | identifier | unary | binary | call | array | assignment | choice | loop | definition
  | result | pass | deletion => exact (silent_fail _ _).tells _

theorem tells_define (span : Span) (name : String) (parameters : List String) (body : Block) :
    Tells arena ((Node.definition span name parameters body).News surroundings.scope arena) ()
      (define surroundings name parameters body) := by
  intro progress clear
  let function : Value := .function (.closure
    ⟨name, parameters, body.statements, surroundings.scope, progress.memory.identify.1⟩)
  have clear' : Progress.Clear (arena.capture surroundings.scope)
      { progress with
        memory := ⟨progress.memory.heap.identify.2,
          progress.memory.scopes.capture surroundings.scope⟩ } := by
    refine ⟨?_, clear.silent⟩
    rw [← clear.scopes]
  have binding : Tells (arena.capture surroundings.scope)
      ((Node.definition span name parameters body).News surroundings.scope arena) () (do
        assign surroundings.scope name function
        notifyAssign surroundings (some name) function) :=
    tells_binding surroundings rfl (arena.isSome_capture _) function
  exact binding _ clear'

theorem tells_exec (node : Node) :
    Tells arena (node.News surroundings.scope arena) .next (exec surroundings node) := by
  cases node with
  | assignment span target value =>
    exact (tells_assignTo surroundings span target value).map fun _ => Flow.next
  | choice _ first body others otherwise =>
    refine (silent_firstBranch surroundings (.of first body :: others)).bind_tells fun chosen => ?_
    split
    · exact (silent_pure _).tells _
    · split <;> exact (silent_pure _).tells _
  | loop _ header body =>
    refine (silent_condition surroundings header).bind_tells fun truth => ?_
    split <;> exact (silent_pure _).tells _
  | definition span name parameters body =>
    exact (tells_define surroundings span name parameters body).map fun _ => Flow.next
  | result _ value =>
    cases value with
    | none => exact (silent_pure _).tells _
    | some value =>
      exact (silent_eval surroundings value).bind_tells fun _ => (silent_pure _).tells _
  | pass => exact (silent_pure _).tells _
  | deletion span target =>
    exact (tells_delete surroundings span target).map fun _ => Flow.next
  | literal | identifier | unary | binary | call | element | slice | array =>
    exact (silent_eval surroundings _).bind_tells fun _ => (silent_pure _).tells _

end Evaluation

end TabScript
