import TabScript.Proofs.Checks.Lawful

/-! Statements keep the memory lawful, and checked statements fail for dynamic reasons only.

Values that were found early are used late, when the heap may have grown, so what holds of a value is told
of a count of arrays that there are at least. -/

set_option autoImplicit false

namespace TabScript

variable {σ α β : Type} {checked : Prop} {count larger : Nat}

def Cause.IsDynamic (cause : Cause) : Prop :=
  cause.kind.isCompileTime = false ∧ cause.kind ≠ .illegalStatement

theorem Cause.isDynamic_operation (fault : OperationFault) : (operation fault).IsDynamic := by
  cases fault <;> exact ⟨rfl, by simp [kind, OperationFault.kind]⟩

structure Progress.Lawful (checked : Prop) (count : Nat) (progress : Progress σ) : Prop where
  memory : progress.memory.Lawful checked
  replay : progress.replay.All (Value.Lawful checked progress.memory.size)
  grown : count ≤ progress.memory.size

theorem Progress.Lawful.mono {progress : Progress σ} (lawful : progress.Lawful checked larger)
    (grows : count ≤ larger) : progress.Lawful checked count :=
  ⟨lawful.memory, lawful.replay, Nat.le_trans grows lawful.grown⟩

/-- The arrays and scopes may change as long as no array is taken away. -/
theorem Progress.Lawful.withMemory {progress : Progress σ} (lawful : progress.Lawful checked count)
    {memory : Memory} (good : memory.Lawful checked) (grows : progress.memory.size ≤ memory.size) :
    Progress.Lawful checked count { progress with memory := memory } :=
  ⟨good, fun slot done present => (lawful.replay slot done present).mono grows,
    Nat.le_trans lawful.grown grows⟩

namespace Evaluation

/-- How a computation may end. `holds` is said of its value and the count of arrays at the end. -/
inductive Lands (checked : Prop) (count : Nat) (holds : Nat → α → Prop) :
    Except Interrupt α × Progress σ → Prop where
  | ok {value : α} {after : Progress σ} (lawful : after.Lawful checked count)
    (good : holds after.memory.size value) : Lands checked count holds (.ok value, after)
  | fail {fault : Fault} {after : Progress σ} (lawful : after.Lawful checked count)
    (dynamic : checked → fault.cause.IsDynamic) : Lands checked count holds (.error (.fail fault), after)
  | suspend {closure : Closure} {arguments : List Value} {after : Progress σ}
    (lawful : after.Lawful checked count)
    (callable : closure.Callable checked after.memory.size arguments) :
    Lands checked count holds (.error (.suspend closure arguments), after)

def Lawful (checked : Prop) (count : Nat) (holds : Nat → α → Prop) (computation : Evaluation σ α) :
    Prop :=
  ∀ progress : Progress σ, progress.Lawful checked count →
    Lands checked count holds (computation progress)

variable {holds : Nat → α → Prop} {later : Nat → β → Prop}

theorem Lands.mono {reached : Except Interrupt α × Progress σ} (lands : Lands checked larger holds reached)
    (grows : count ≤ larger) : Lands checked count holds reached := by
  cases lands with
  | ok lawful good => exact .ok (lawful.mono grows) good
  | fail lawful dynamic => exact .fail (lawful.mono grows) dynamic
  | suspend lawful callable => exact .suspend (lawful.mono grows) callable

section
variable {reached : Except Interrupt α × Progress σ} (lands : Lands checked count holds reached)
include lands

theorem Lands.state : reached.2.Lawful checked count := by
  cases lands with
  | ok lawful _ => exact lawful
  | fail lawful _ => exact lawful
  | suspend lawful _ => exact lawful

theorem Lands.value {value : α} (ended : reached.1 = .ok value) : holds reached.2.memory.size value := by
  cases lands <;> cases ended
  assumption

theorem Lands.fault {fault : Fault} (ended : reached.1 = .error (.fail fault)) :
    checked → fault.cause.IsDynamic := by
  cases lands <;> cases ended
  assumption

theorem Lands.call {closure : Closure} {arguments : List Value}
    (ended : reached.1 = .error (.suspend closure arguments)) :
    closure.Callable checked reached.2.memory.size arguments := by
  cases lands <;> cases ended
  assumption

end

theorem Lawful.bind {first : Evaluation σ α} {next : α → Evaluation σ β}
    (start : Lawful checked count holds first)
    (rest : ∀ larger, count ≤ larger → ∀ value, holds larger value →
      Lawful checked larger later (next value)) : Lawful checked count later (first >>= next) := by
  intro progress lawful
  rw [bind_apply]
  have lands := start progress lawful
  generalize first progress = reached at lands
  cases lands with
  | ok between good =>
    have goesOn := rest _ between.grown _ good
    exact (goesOn _ ⟨between.memory, between.replay, Nat.le_refl _⟩).mono between.grown
  | fail between dynamic => exact .fail between dynamic
  | suspend between callable => exact .suspend between callable

theorem lawful_pure {value : α} (good : ∀ larger, count ≤ larger → holds larger value) :
    Lawful checked count holds (pure value : Evaluation σ α) := fun _ lawful =>
  .ok lawful (good _ lawful.grown)

theorem lawful_fail {cause : Cause} {span : Span} (dynamic : checked → cause.IsDynamic) :
    Lawful checked count holds (fail cause span : Evaluation σ α) := fun _ lawful =>
  .fail lawful dynamic

theorem lawful_locate {spanOf : Culprit → Span} {result : Except OperationFault α}
    (good : ∀ value, result = .ok value → ∀ larger, count ≤ larger → holds larger value) :
    Lawful checked count holds (locate spanOf result : Evaluation σ α) := by
  cases result with
  | ok value => exact lawful_pure (good value rfl)
  | error fault => exact lawful_fail fun _ => Cause.isDynamic_operation fault

theorem lawful_get {next : Progress σ → Evaluation σ α}
    (rest : ∀ progress : Progress σ, progress.Lawful checked count →
      Lands checked count holds (next progress progress)) :
    Lawful checked count holds (get >>= next) := rest

theorem lawful_arrays {next : Heap → Evaluation σ α}
    (rest : ∀ progress : Progress σ, progress.Lawful checked count →
      Lands checked count holds (next progress.memory.heap progress)) :
    Lawful checked count holds (heap >>= next) := rest

theorem lawful_heap {next : Heap → Evaluation σ α}
    (rest : ∀ heap : Heap, heap.Lawful checked → count ≤ heap.arrays.size →
      Lawful checked heap.arrays.size holds (next heap)) :
    Lawful checked count holds (heap >>= next) :=
  lawful_arrays fun progress lawful =>
    (rest _ lawful.memory.heap lawful.grown progress
      ⟨lawful.memory, lawful.replay, Nat.le_refl _⟩).mono lawful.grown

theorem lawful_realize {computed : Computed} (all : computed.All (Value.Lawful checked count)) :
    Lawful checked count (Value.Lawful checked) (realize computed : Evaluation σ Value) := by
  intro progress lawful
  have kept : computed.All (Value.Lawful checked progress.memory.size) := by
    cases computed with
    | value value => exact all.mono lawful.grown
    | items items => exact fun item inside => (all item inside).mono lawful.grown
  obtain ⟨heap, good, -⟩ := (Heap.lawful_makes checked progress.memory.size).realize
    ⟨lawful.memory.heap, Nat.le_refl _⟩ kept
  have scopes := lawful.memory.scopes.mono heap.2
  exact .ok (lawful.withMemory ⟨heap.1, scopes⟩ heap.2) good

theorem lawful_emit (event : Event) :
    Lawful checked count (fun _ _ => True) (emit event : Evaluation σ Unit) := fun _ lawful =>
  .ok ⟨lawful.memory, lawful.replay, lawful.grown⟩ trivial

theorem lawful_assign (scope : ScopeId) (name : String) {value : Value}
    (good : value.Lawful checked count) :
    Lawful checked count (fun _ _ => True) (assign scope name value : Evaluation σ Unit) := by
  intro progress lawful
  have scopes := lawful.memory.scopes.assign scope name (good.mono lawful.grown)
  exact .ok (lawful.withMemory ⟨lawful.memory.heap, scopes⟩ (Nat.le_refl _)) trivial

theorem Lawful.remember {body : Evaluation σ Value}
    (inner : Lawful checked count (Value.Lawful checked) body) :
    Lawful checked count (Value.Lawful checked) (remember body) := by
  intro progress lawful
  have taken := lawful.replay.take
  unfold Evaluation.remember
  rcases took : progress.replay.take with ⟨value | slot, replay⟩ <;> rw [took] at taken
  · exact .ok ⟨lawful.memory, taken.1, lawful.grown⟩ (taken.2 value rfl)
  · have lands := inner { progress with replay := replay } ⟨lawful.memory, taken.1, lawful.grown⟩
    simp only
    generalize body { progress with replay := replay } = reached at lands ⊢
    cases lands with
    | ok after good => exact .ok ⟨after.memory, after.replay.put good _ _, after.grown⟩ good
    | fail after dynamic => exact .fail after dynamic
    | suspend after callable =>
      exact .suspend ⟨after.memory, after.replay.suspend _, after.grown⟩ callable

variable {surroundings : Surroundings σ}

theorem lawful_lookup (span : Span) (name : String) :
    Lawful checked count (Value.Lawful checked) (lookup surroundings span name) := by
  refine lawful_get fun progress lawful => ?_
  cases found : progress.memory.scopes.lookup surroundings.scope name with
  | none => exact .fail lawful fun _ => ⟨rfl, by simp [Cause.kind]⟩
  | some value => exact .ok lawful (lawful.memory.scopes.lookup found)

theorem lawful_notifyAssign (name : Option String) (value : Value) :
    Lawful checked count (fun _ _ => True) (notifyAssign surroundings name value) := by
  unfold notifyAssign
  split
  · exact lawful_get fun progress lawful => lawful_emit _ progress lawful
  · exact lawful_pure fun _ _ => trivial

theorem lawful_notifyMutation (container : Node) :
    Lawful checked count (fun _ _ => True) (notifyMutation surroundings container) :=
  lawful_get fun progress lawful => lawful_notifyAssign _ _ progress lawful

theorem lawful_print (arguments : List Value) :
    Lawful checked count (Value.Lawful checked) (print surroundings arguments) := by
  unfold print
  split
  · refine lawful_heap fun _ _ _ => ?_
    exact (lawful_emit _).bind fun _ _ _ _ => lawful_pure fun _ _ => trivial
  · exact lawful_pure fun _ _ => trivial

theorem lawful_length (span : Span) (nodes : List Node) (arguments : List Value) :
    Lawful checked count (Value.Lawful checked) (length span nodes arguments : Evaluation σ Value) := by
  unfold length
  split
  · refine lawful_heap fun heap _ _ => ?_
    have counted : ∀ (blamed : Culprit → Span) (found : Except OperationFault Nat),
        Lawful checked heap.arrays.size (fun _ _ => True) (locate blamed found : Evaluation σ Nat) :=
      fun _ _ => lawful_locate fun _ _ _ _ => trivial
    exact (counted _ _).bind fun _ _ _ _ => lawful_pure fun _ _ => trivial
  · exact lawful_fail fun _ => ⟨rfl, by simp [Cause.kind]⟩

theorem lawful_callHost (span : Span) (name : String) (index : Nat) (arguments : List Value) :
    Lawful checked count (Value.Lawful checked) (callHost surroundings span name index arguments) := by
  refine lawful_arrays fun progress lawful => ?_
  dsimp only
  cases surroundings.hosts[index]? with
  | none => exact .ok lawful trivial
  | some run =>
    dsimp only
    rw [get_bind_apply, modify_bind_apply]
    generalize run progress.host (arguments.map (Value.toJson progress.memory.heap)) = answered
    obtain ⟨answer, host⟩ := answered
    dsimp only
    have told : Progress.Lawful checked count
        { progress with
          host := host
          calls := ⟨name, arguments.map (Value.toJson progress.memory.heap)⟩ :: progress.calls } :=
      ⟨lawful.memory, lawful.replay, lawful.grown⟩
    rcases answer with message | _ | json
    · exact .fail told fun _ => ⟨rfl, by simp [Cause.kind]⟩
    · exact .ok told trivial
    · dsimp only
      cases made : Value.ofJson progress.memory.heap json with
      | none => exact .fail told fun _ => ⟨rfl, by simp [Cause.kind]⟩
      | some found =>
        obtain ⟨value, heap⟩ := found
        obtain ⟨good, known, -⟩ := (Heap.lawful_makes checked progress.memory.size).ofJson
          ⟨lawful.memory.heap, Nat.le_refl _⟩ made
        exact .ok (told.withMemory ⟨good.1, lawful.memory.scopes.mono good.2⟩ good.2) known

theorem lawful_callBuiltin (span : Span) (builtin : Builtin) (nodes : List Node)
    (arguments : List Value) :
    Lawful checked count (Value.Lawful checked)
      (callBuiltin surroundings span builtin nodes arguments) := by
  unfold callBuiltin
  split
  · exact lawful_print arguments
  · exact lawful_length span nodes arguments
  · exact lawful_callHost span _ _ arguments

theorem lawful_apply (span : Span) (callee : Node) (nodes : List Node) {function : Value}
    {arguments : List Value} (known : function.Lawful checked count)
    (given : ∀ argument ∈ arguments, argument.Lawful checked count) :
    Lawful checked count (Value.Lawful checked)
      (apply surroundings span callee nodes function arguments) := by
  unfold apply
  split
  · split
    · intro progress lawful
      exact .suspend lawful ⟨known, fun argument inside => (given argument inside).mono lawful.grown⟩
    · exact lawful_fail fun _ => ⟨rfl, by simp [Cause.kind]⟩
  · exact lawful_callBuiltin span _ nodes arguments
  · exact lawful_heap fun _ _ _ => lawful_fail fun _ => ⟨rfl, by simp [Cause.kind]⟩

theorem lawful_computed (spanOf : Culprit → Span) {compute : Heap → Except OperationFault Computed}
    (kept : ∀ heap : Heap, heap.Lawful checked → count ≤ heap.arrays.size → ∀ computed,
      compute heap = .ok computed → computed.All (Value.Lawful checked heap.arrays.size)) :
    Lawful checked count (Value.Lawful checked)
      (do
        let computed ← locate spanOf (compute (← heap))
        realize computed : Evaluation σ Value) := by
  refine lawful_heap fun heap good enough => ?_
  cases found : compute heap with
  | error fault => exact lawful_fail fun _ => Cause.isDynamic_operation fault
  | ok computed => exact lawful_realize (kept heap good enough computed found)

theorem lawful_mutation (container : Node) (spanOf : Culprit → Span) {values : List Value}
    {change : Heap → Except OperationFault Heap}
    (changes : ∀ heap changed, change heap = .ok changed → heap.Changes values changed)
    (known : ∀ value ∈ values, value.Lawful checked count) :
    Lawful checked count (fun _ _ => True)
      (do
        setHeap (← locate spanOf (change (← heap)))
        notifyMutation surroundings container) := by
  refine lawful_arrays fun progress lawful => ?_
  rw [bind_apply]
  cases found : change progress.memory.heap with
  | error fault => exact .fail lawful fun _ => Cause.isDynamic_operation fault
  | ok changed =>
    obtain ⟨good, same⟩ := lawful.memory.heap.changes (changes _ _ found) fun value inside =>
      (known value inside).mono lawful.grown
    have scopes : progress.memory.scopes.Lawful checked changed.arrays.size := by
      rw [same]
      exact lawful.memory.scopes
    have mutated : Progress.Lawful checked count
        { progress with memory := ⟨changed, progress.memory.scopes⟩ } :=
      lawful.withMemory ⟨good, scopes⟩ (Nat.le_of_eq same.symm)
    exact lawful_notifyMutation container _ mutated

mutual

theorem lawful_eval : ∀ (node : Node), (checked → node.IsOperand) → ∀ count : Nat,
    Lawful checked count (Value.Lawful checked) (eval surroundings node)
  | .literal _ value, _, _ => by
    rw [eval]
    exact (lawful_pure fun _ _ => Value.lawful_ofLiteral value).remember
  | .identifier span name, _, _ => by
    rw [eval]
    exact (lawful_lookup span name).remember
  | .unary _ operator operatorSpan operand, proper, count => by
    rw [eval]
    refine ((lawful_eval operand proper count).bind fun larger _ value known => ?_).remember
    exact lawful_locate fun result found larger _ => (Value.lawful_plain checked larger).unary found
  | .binary _ operator operatorSpan left right, proper, count => by
    rw [eval]
    refine ((lawful_eval left (fun holds => (proper holds).1) count).bind
      fun _ _ first known => ?_).remember
    refine (lawful_eval right (fun holds => (proper holds).2) _).bind fun _ grows second other => ?_
    refine lawful_computed _ fun heap good enough computed found => ?_
    exact Value.keeps_binary good.keeps ((known.mono grows).mono enough) (other.mono enough) found
  | .call span callee nodes, proper, count => by
    rw [eval]
    refine ((lawful_eval callee (fun holds => (proper holds).1) count).bind
      fun _ _ function known => ?_).remember
    refine (lawful_evalAll nodes (fun holds => (proper holds).2) _).bind fun _ grows given all => ?_
    exact lawful_apply span callee nodes (known.mono grows) all
  | .element span target index, proper, count => by
    rw [eval]
    refine ((lawful_eval target (fun holds => (proper holds).1) count).bind
      fun _ _ container known => ?_).remember
    refine (lawful_eval index (fun holds => (proper holds).2) _).bind fun _ grows position _ => ?_
    refine lawful_heap fun heap good enough => lawful_locate fun value found larger later => ?_
    exact (Value.keeps_element good.keeps ((known.mono grows).mono enough) found).mono later
  | .slice span target start stop, proper, count => by
    rw [eval]
    refine ((lawful_eval target (fun holds => (proper holds).1) count).bind
      fun _ _ container known => ?_).remember
    refine (lawful_eval start (fun holds => (proper holds).2.1) _).bind fun _ grows _ _ => ?_
    refine (lawful_eval stop (fun holds => (proper holds).2.2) _).bind fun _ grows' _ _ => ?_
    refine lawful_computed _ fun heap good enough computed found => ?_
    exact Value.keeps_slice good.keeps (((known.mono grows).mono grows').mono enough) found
  | .array _ nodes, proper, count => by
    rw [eval]
    refine ((lawful_evalAll nodes proper count).bind fun _ _ values all => ?_).remember
    exact lawful_realize all
  | .assignment .., proper, _ | .choice .., proper, _ | .loop .., proper, _
  | .definition .., proper, _ | .result .., proper, _ | .pass _, proper, _
  | .deletion .., proper, _ => by
    rw [eval]
    exact (lawful_fail fun holds => (proper holds).elim).remember

theorem lawful_evalAll : ∀ (nodes : List Node), (checked → Node.AreOperands nodes) → ∀ count : Nat,
    Lawful checked count (fun larger values => ∀ value ∈ values, value.Lawful checked larger)
      (evalAll surroundings nodes)
  | [], _, _ => by
    rw [evalAll]
    exact lawful_pure fun _ _ => by simp
  | node :: nodes, proper, count => by
    rw [evalAll]
    refine (lawful_eval node (fun holds => (proper holds).1) count).bind fun _ _ value known => ?_
    refine (lawful_evalAll nodes (fun holds => (proper holds).2) _).bind fun _ grows values all => ?_
    refine lawful_pure fun larger enough other inside => ?_
    rcases List.mem_cons.1 inside with rfl | further
    · exact (known.mono grows).mono enough
    · exact (all other further).mono enough

end

theorem lawful_condition (node : Node) (proper : checked → node.IsOperand) :
    Lawful checked count (fun _ _ => True) (condition surroundings node) := by
  refine (lawful_eval node proper count).bind fun _ _ value _ => ?_
  cases value.truth? with
  | some truth => exact lawful_pure fun _ _ => trivial
  | none => exact lawful_fail fun _ => ⟨rfl, by simp [Cause.kind]⟩

theorem lawful_firstBranch (branches : List Branch) (filled : checked → Branch.AreFilled branches) :
    ∀ count : Nat, Lawful checked count
      (fun _ chosen => checked → ∀ block ∈ chosen, Node.AreProper block.statements)
      (firstBranch surroundings branches) := by
  induction branches with
  | nil => exact fun _ => lawful_pure fun _ _ _ block impossible => by cases impossible
  | cons branch others ih =>
    intro count
    obtain ⟨asked, body⟩ := branch
    refine (lawful_condition asked fun holds => (filled holds).1.1).bind fun larger _ truth _ => ?_
    cases truth with
    | true =>
      refine lawful_pure fun _ _ holds block chosen => ?_
      cases chosen
      exact (filled holds).1.2.areProper
    | false => exact ih (fun holds => (filled holds).2) larger

theorem lawful_assignTo (target valueNode : Node)
    (proper : checked → (target.isAssignable = true ∧ target.IsOperand) ∧ valueNode.IsOperand) :
    Lawful checked count (fun _ _ => True) (assignTo surroundings target valueNode) := by
  refine (lawful_eval valueNode (fun holds => (proper holds).2) count).bind
    fun _ _ value assigned => ?_
  cases target with
  | identifier _ name =>
    exact (lawful_assign _ name assigned).bind fun _ _ _ _ => lawful_notifyAssign _ value
  | element span container index =>
    have parts := fun holds => (proper holds).1.2
    refine (lawful_eval container (fun holds => (parts holds).1) _).bind fun _ grows root known => ?_
    refine (lawful_eval index (fun holds => (parts holds).2) _).bind fun _ grows' _ _ => ?_
    refine lawful_mutation container _ (fun heap changed => Value.changes_setElement) ?_
    simpa using ⟨known.mono grows', (assigned.mono grows).mono grows'⟩
  | slice span container start stop =>
    have parts := fun holds => (proper holds).1.2
    refine (lawful_eval container (fun holds => (parts holds).1) _).bind fun _ grows root known => ?_
    refine (lawful_eval start (fun holds => (parts holds).2.1) _).bind fun _ grows' _ _ => ?_
    refine (lawful_eval stop (fun holds => (parts holds).2.2) _).bind fun _ grows'' _ _ => ?_
    refine lawful_mutation container _ (fun heap changed => Value.changes_setSlice) ?_
    simpa using ⟨(known.mono grows').mono grows'', ((assigned.mono grows).mono grows').mono grows''⟩
  | literal | unary | binary | call | array | assignment | choice | loop | definition | result
  | pass | deletion =>
    refine lawful_fail fun holds => absurd (proper holds).1.1 ?_
    simp [Node.isAssignable, Node.tag]

theorem lawful_delete (target : Node)
    (proper : checked → target.tag = .subscript ∧ target.IsOperand) :
    Lawful checked count (fun _ _ => True) (delete surroundings target) := by
  cases target with
  | element _ container index =>
    have parts := fun holds => (proper holds).2
    refine (lawful_eval container (fun holds => (parts holds).1) _).bind fun _ grows root known => ?_
    refine (lawful_eval index (fun holds => (parts holds).2) _).bind fun _ grows' _ _ => ?_
    refine lawful_mutation container _ (fun heap changed => Value.changes_deleteElement) ?_
    simpa using known.mono grows'
  | slice _ container start stop =>
    have parts := fun holds => (proper holds).2
    refine (lawful_eval container (fun holds => (parts holds).1) _).bind fun _ grows root known => ?_
    refine (lawful_eval start (fun holds => (parts holds).2.1) _).bind fun _ grows' _ _ => ?_
    refine (lawful_eval stop (fun holds => (parts holds).2.2) _).bind fun _ grows'' _ _ => ?_
    refine lawful_mutation container _ (fun heap changed => Value.changes_deleteSlice) ?_
    simpa using (known.mono grows').mono grows''
  | literal | identifier | unary | binary | call | array | assignment | choice | loop | definition
  | result | pass | deletion =>
    refine lawful_fail fun holds => absurd (proper holds).1 ?_
    simp [Node.tag]

theorem lawful_define (name : String) (parameters : List String) (body : Block)
    (proper : checked → body.IsFilled) :
    Lawful checked count (fun _ _ => True) (define surroundings name parameters body) := by
  refine lawful_get fun progress lawful => ?_
  dsimp only
  rw [modify_bind_apply]
  have captured : Progress.Lawful checked count
      { progress with
        memory := ⟨progress.memory.heap.identify.2,
          progress.memory.scopes.capture surroundings.scope⟩ } :=
    lawful.withMemory ⟨lawful.memory.heap,
      lawful.memory.scopes.gone (progress.memory.scopes.spares_capture _)⟩ (Nat.le_refl _)
  have made : Value.Lawful checked count (.function (.closure
      ⟨name, parameters, body.statements, surroundings.scope, progress.memory.identify.1⟩)) :=
    fun holds => (proper holds).areProper
  exact (lawful_assign surroundings.scope name made).bind
    (fun _ _ _ _ => lawful_notifyAssign (some name) _) _ captured

theorem lawful_exec (node : Node) (proper : checked → node.IsProper) :
    Lawful checked count (Flow.Lawful checked) (exec surroundings node) := by
  have next : ∀ {count : Nat}, Lawful checked count (Flow.Lawful checked)
      (pure Flow.next : Evaluation σ Flow) := lawful_pure fun _ _ => trivial
  have entered : ∀ {count : Nat} {block : Block} {scope : ScopeId},
      (checked → Node.AreProper block.statements) →
      Lawful checked count (Flow.Lawful checked)
        (pure (Flow.enter (.block block.statements scope)) : Evaluation σ Flow) :=
    fun filled => lawful_pure fun _ _ => ⟨filled, fun _ => trivial, Replay.all_fresh⟩
  cases node with
  | assignment _ target value =>
    exact (lawful_assignTo target value proper).bind fun _ _ _ _ => next
  | choice _ first body others otherwise =>
    refine (lawful_firstBranch (.of first body :: others)
      (fun holds => ⟨⟨(proper holds).1, (proper holds).2.1⟩, (proper holds).2.2.1⟩) count).bind
        fun _ _ chosen good => ?_
    cases chosen with
    | some block => exact entered fun holds => good holds block rfl
    | none =>
      cases otherwise with
      | some block => exact entered fun holds => (proper holds).2.2.2.areProper
      | none => exact next
  | loop _ header body =>
    refine (lawful_condition header fun holds => (proper holds).1).bind fun _ _ truth _ => ?_
    cases truth with
    | true =>
      exact lawful_pure fun _ _ => ⟨fun holds => (proper holds).2.areProper, proper, Replay.all_fresh⟩
    | false => exact next
  | definition _ name parameters body =>
    exact (lawful_define name parameters body fun holds => (proper holds).2).bind fun _ _ _ _ => next
  | result _ value =>
    cases value with
    | none => exact lawful_pure fun _ _ => trivial
    | some value =>
      exact (lawful_eval value proper count).bind fun _ _ _ known =>
        lawful_pure fun _ enough => known.mono enough
  | pass => exact next
  | deletion _ target => exact (lawful_delete target proper).bind fun _ _ _ _ => next
  | literal | identifier | unary | binary | call | element | slice | array =>
    exact (lawful_eval _ proper count).bind fun _ _ _ _ => next

end Evaluation

end TabScript
