import TabScript.Proofs.Replay.Log

/-! The actions of statements do not look at the memory of finished parts, and only the call of a
function of the program asks for a call. -/

set_option autoImplicit false

namespace TabScript.Evaluation

variable {σ α β : Type}

structure Steady (action : Evaluation σ α) : Prop where
  detached : Detached action
  settled : Settled action

theorem Detached.bind {first : Evaluation σ α} {next : α → Evaluation σ β} (start : Detached first)
    (rest : ∀ value, Detached (next value)) : Detached (first >>= next) := by
  intro world replay
  simp only [bind_apply]
  rw [start world replay]
  rcases first (world.progress .fresh) with ⟨_ | value, after⟩
  · rfl
  · have here := rest value after.world replay
    have there := rest value after.world after.replay
    rw [Progress.progress_world] at there
    simp only [andThen, here, there]
    rfl

theorem Settled.bind {first : Evaluation σ α} {next : α → Evaluation σ β} (start : Settled first)
    (rest : ∀ value, Settled (next value)) : Settled (first >>= next) := by
  intro progress closure arguments
  rw [bind_apply]
  have asks := start progress closure arguments
  rcases reached : first progress with ⟨_ | value, after⟩
  · simpa [reached, andThen] using asks
  · exact rest value after closure arguments

theorem Steady.bind {first : Evaluation σ α} {next : α → Evaluation σ β} (start : Steady first)
    (rest : ∀ value, Steady (next value)) : Steady (first >>= next) :=
  ⟨start.detached.bind fun value => (rest value).detached,
    start.settled.bind fun value => (rest value).settled⟩

theorem Steady.carried {own : (Value → World σ → Course σ α) → Prop} {action : Evaluation σ α}
    (steady : Steady action) : Carried own action (Plan.act action) :=
  carried_act steady.detached steady.settled

theorem steady_pure (value : α) : Steady (pure value : Evaluation σ α) :=
  ⟨fun _ _ => rfl, fun _ _ _ impossible => by cases impossible⟩

theorem steady_fail (cause : Cause) (span : Span) : Steady (fail cause span : Evaluation σ α) :=
  ⟨fun _ _ => rfl, fun _ _ _ impossible => by cases impossible⟩

theorem steady_heap : Steady (heap : Evaluation σ Heap) :=
  ⟨fun _ _ => rfl, fun _ _ _ impossible => by cases impossible⟩

theorem steady_realize (computed : Computed) : Steady (realize computed : Evaluation σ Value) :=
  ⟨fun _ _ => rfl, fun _ _ _ impossible => by cases impossible⟩

theorem steady_setHeap (changed : Heap) : Steady (setHeap changed : Evaluation σ Unit) :=
  ⟨fun _ _ => rfl, fun _ _ _ impossible => by cases impossible⟩

theorem steady_assign (scope : ScopeId) (name : String) (value : Value) :
    Steady (assign scope name value : Evaluation σ Unit) :=
  ⟨fun _ _ => rfl, fun _ _ _ impossible => by cases impossible⟩

theorem steady_emit (event : Event) : Steady (emit event : Evaluation σ Unit) :=
  ⟨fun _ _ => rfl, fun _ _ _ impossible => by cases impossible⟩

theorem steady_locate (spanOf : Culprit → Span) (result : Except OperationFault α) :
    Steady (locate spanOf result : Evaluation σ α) := by
  cases result with
  | ok value => exact steady_pure value
  | error fault => exact steady_fail _ _

theorem steady_get {next : Progress σ → Evaluation σ α} (rest : ∀ progress, Steady (next progress))
    (blind : ∀ progress replay, next { progress with replay := replay } = next progress) :
    Steady (get >>= next) := by
  constructor
  · intro world replay
    exact (congrFun (blind (world.progress .fresh) replay) _).trans
      ((rest (world.progress .fresh)).detached world replay)
  · intro progress closure arguments
    exact (rest progress).settled progress closure arguments

theorem steady_lookup (surroundings : Surroundings σ) (span : Span) (name : String) :
    Steady (lookup surroundings span name) := by
  refine steady_get (fun progress => ?_) fun _ _ => rfl
  split
  · exact steady_pure _
  · exact steady_fail _ _

theorem steady_notifyAssign (surroundings : Surroundings σ) (name : Option String) (value : Value) :
    Steady (notifyAssign surroundings name value) := by
  unfold notifyAssign
  split
  · exact steady_get (fun _ => steady_emit _) fun _ _ => rfl
  · exact steady_pure _

theorem steady_notifyMutation (surroundings : Surroundings σ) (container : Node) :
    Steady (notifyMutation surroundings container) :=
  steady_get (fun _ => steady_notifyAssign _ _ _) fun _ _ => rfl

theorem steady_print (surroundings : Surroundings σ) (arguments : List Value) :
    Steady (print surroundings arguments) := by
  unfold print
  split
  · exact steady_heap.bind fun _ => (steady_emit _).bind fun _ => steady_pure _
  · exact steady_pure _

theorem steady_length (span : Span) (nodes : List Node) (arguments : List Value) :
    Steady (length span nodes arguments : Evaluation σ Value) := by
  unfold length
  split
  · exact steady_heap.bind fun _ => (steady_locate _ _).bind fun _ => steady_pure _
  · exact steady_fail _ _

theorem steady_callHost (surroundings : Surroundings σ) (span : Span) (name : String) (index : Nat)
    (arguments : List Value) : Steady (callHost surroundings span name index arguments) := by
  refine steady_heap.bind fun heap => ?_
  split
  · exact steady_pure _
  · rename_i run _
    refine steady_get (fun progress => ?_) fun _ _ => rfl
    refine Steady.bind ⟨fun _ _ => rfl, fun _ _ _ impossible => by cases impossible⟩ fun _ => ?_
    split
    · exact steady_fail _ _
    · exact steady_pure _
    · split
      · exact (steady_setHeap _).bind fun _ => steady_pure _
      · exact steady_fail _ _

theorem steady_callBuiltin (surroundings : Surroundings σ) (span : Span) (builtin : Builtin)
    (nodes : List Node) (arguments : List Value) :
    Steady (callBuiltin surroundings span builtin nodes arguments) := by
  unfold callBuiltin
  split
  · exact steady_print _ _
  · exact steady_length _ _ _
  · exact steady_callHost _ _ _ _ _

theorem steady_define (surroundings : Surroundings σ) (name : String) (parameters : List String)
    (body : Block) : Steady (define surroundings name parameters body) := by
  refine steady_get (fun progress => ?_) fun _ _ => rfl
  refine Steady.bind ⟨fun _ _ => rfl, fun _ _ _ impossible => by cases impossible⟩ fun _ => ?_
  exact (steady_assign _ _ _).bind fun _ => steady_notifyAssign _ _ _

theorem detached_apply (surroundings : Surroundings σ) (span : Span) (callee : Node)
    (nodes : List Node) (function : Value) (arguments : List Value) :
    Detached (apply surroundings span callee nodes function arguments) := by
  unfold apply
  split
  · split
    · exact fun _ _ => rfl
    · exact (steady_fail _ _).detached
  · exact (steady_callBuiltin _ _ _ _ _).detached
  · exact (steady_heap.bind fun _ => steady_fail _ _).detached

theorem apply_suspends {surroundings : Surroundings σ} {span : Span} {callee : Node} {nodes : List Node}
    {function : Value} {given arguments : List Value} {progress : Progress σ} {closure : Closure}
    (suspended : (apply surroundings span callee nodes function given progress).1 =
      .error (.suspend closure arguments)) :
    function = .function (.closure closure) ∧ given = arguments ∧
      closure.parameters.length = arguments.length := by
  unfold apply at suspended
  split at suspended
  · split at suspended
    · rename_i fits
      cases suspended
      exact ⟨rfl, rfl, fits⟩
    · cases suspended
  · exact absurd suspended ((steady_callBuiltin _ _ _ _ _).settled _ _ _)
  · exact absurd suspended ((steady_heap.bind fun _ => steady_fail _ _).settled _ _ _)

end TabScript.Evaluation
