import TabScript.Proofs.Replay.Log

/-! Statements do not depend on who listens.

A statement that is run for two hosts, which want to hear of different kinds of events, ends in the same
way for both and leaves the same state. All that can differ is what it tells: any relation between the events
for the one and those for the other is kept, if it is kept by telling what is printed or assigned. -/

set_option autoImplicit false

namespace TabScript

variable {σ α β : Type} {alike : List Event → List Event → Prop}

def EventKind.OfStatements (kind : EventKind) : Prop := kind = .print ∨ kind = .assign

namespace Progress

/-- Two states of a statement with related events, and all else the same. -/
structure Agrees (alike : List Event → List Event → Prop) (first second : Progress σ) : Prop where
  memory : first.memory = second.memory
  replay : first.replay = second.replay
  host : first.host = second.host
  events : alike first.events second.events
  calls : first.calls = second.calls

def told (progress : Progress σ) (wanted : Bool) (event : Event) : Progress σ :=
  { progress with events := if wanted then event :: progress.events else progress.events }

end Progress

/-- The same surroundings for two hosts. The events for both stay related when a statement tells one. -/
structure Surroundings.Shares (alike : List Event → List Event → Prop) (first second : Surroundings σ) :
    Prop where
  scope : first.scope = second.scope
  hosts : first.hosts = second.hosts
  told (event : Event) {earlier earlier' : List Event}
    (statement : event.kind.OfStatements) (before : alike earlier earlier') :
    alike (if first.wants event.kind then event :: earlier else earlier)
      (if second.wants event.kind then event :: earlier' else earlier')

namespace Evaluation

/-- From states that agree, both computations end in the same way, in states that agree. -/
def Undisturbed (alike : List Event → List Event → Prop) (first second : Evaluation σ α) : Prop :=
  ∀ before after : Progress σ, before.Agrees alike after →
    (first before).1 = (second after).1 ∧ (first before).2.Agrees alike (second after).2

theorem Undisturbed.bind {first second : Evaluation σ α} {next next' : α → Evaluation σ β}
    (start : Undisturbed alike first second)
    (rest : ∀ value, Undisturbed alike (next value) (next' value)) :
    Undisturbed alike (first >>= next) (second >>= next') := by
  intro before after agrees
  rw [bind_apply, bind_apply]
  obtain ⟨result, left⟩ := start before after agrees
  generalize first before = reached at result left ⊢
  generalize second after = reached' at result left ⊢
  obtain ⟨ended, between⟩ := reached
  obtain ⟨ended', between'⟩ := reached'
  obtain rfl : ended = ended' := result
  cases ended with
  | error interrupt => exact ⟨rfl, left⟩
  | ok value => exact rest value between between' left

theorem Undisturbed.remember {first second : Evaluation σ Value}
    (body : Undisturbed alike first second) :
    Undisturbed alike (remember first) (remember second) := by
  intro before after agrees
  unfold Evaluation.remember
  rw [agrees.replay]
  rcases after.replay.take with ⟨value | slot, replay⟩
  -- a value that is known is told by the slot alone
  · exact ⟨rfl, agrees.memory, rfl, agrees.host, agrees.events, agrees.calls⟩
  · obtain ⟨result, left⟩ := body { before with replay := replay } { after with replay := replay }
      ⟨agrees.memory, rfl, agrees.host, agrees.events, agrees.calls⟩
    dsimp only
    generalize first { before with replay := replay } = reached at result left ⊢
    generalize second { after with replay := replay } = reached' at result left ⊢
    obtain ⟨ended, between⟩ := reached
    obtain ⟨ended', between'⟩ := reached'
    obtain rfl : ended = ended' := result
    rcases ended with (fault | ⟨closure, arguments⟩) | value
    · exact ⟨rfl, left⟩
    · exact ⟨rfl, left.memory, congrArg (Replay.suspend · slot) left.replay, left.host, left.events,
        left.calls⟩
    · exact ⟨rfl, left.memory, congrArg (Replay.fill · slot value) left.replay, left.host,
        left.events, left.calls⟩

/-- What neither looks at the events nor adds to them does not disturb. -/
theorem undisturbed_of_blind {action : Evaluation σ α}
    (blind : ∀ (progress : Progress σ) (events : List Event),
      action { progress with events := events } =
        ((action progress).1, { (action progress).2 with events := events })) :
    Undisturbed alike action action := by
  intro before after agrees
  have rest : after = { before with events := after.events } := by
    obtain ⟨memory, replay, host, events, calls⟩ := before
    obtain ⟨memory', replay', host', events', calls'⟩ := after
    obtain ⟨rfl, rfl, rfl, -, rfl⟩ := agrees
    rfl
  -- run with the events that are there, it gives them back
  have silent : (action before).2.events = before.events :=
    congrArg (fun reached => reached.2.events) (blind before before.events)
  rw [rest, blind before after.events]
  refine ⟨rfl, rfl, rfl, rfl, ?_, rfl⟩
  rw [silent]
  exact agrees.events

theorem undisturbed_pure (value : α) :
    Undisturbed alike (pure value : Evaluation σ α) (pure value) :=
  undisturbed_of_blind fun _ _ => rfl

theorem undisturbed_fail (cause : Cause) (span : Span) :
    Undisturbed alike (fail cause span : Evaluation σ α) (fail cause span) :=
  undisturbed_of_blind fun _ _ => rfl

theorem undisturbed_heap : Undisturbed alike (heap : Evaluation σ Heap) heap :=
  undisturbed_of_blind fun _ _ => rfl

theorem undisturbed_realize (computed : Computed) :
    Undisturbed alike (realize computed : Evaluation σ Value) (realize computed) :=
  undisturbed_of_blind fun _ _ => rfl

theorem undisturbed_setHeap (changed : Heap) :
    Undisturbed alike (setHeap changed : Evaluation σ Unit) (setHeap changed) :=
  undisturbed_of_blind fun _ _ => rfl

theorem undisturbed_assign (scope : ScopeId) (name : String) (value : Value) :
    Undisturbed alike (assign scope name value : Evaluation σ Unit) (assign scope name value) :=
  undisturbed_of_blind fun _ _ => rfl

theorem undisturbed_locate (spanOf : Culprit → Span) (result : Except OperationFault α) :
    Undisturbed alike (locate spanOf result : Evaluation σ α) (locate spanOf result) := by
  cases result with
  | ok value => exact undisturbed_pure value
  | error fault => exact undisturbed_fail _ _

/-- What follows may depend on the state, but not on the events. -/
theorem undisturbed_get {next next' : Progress σ → Evaluation σ α}
    (rest : ∀ before after, before.Agrees alike after →
      Undisturbed alike (next before) (next' after)) :
    Undisturbed alike (get >>= next) (get >>= next') :=
  fun before after agrees => rest before after agrees before after agrees

theorem undisturbed_computed (spanOf : Culprit → Span)
    (compute : Heap → Except OperationFault Computed) :
    Undisturbed alike
      (do
        let computed ← locate spanOf (compute (← heap))
        realize computed : Evaluation σ Value)
      (do
        let computed ← locate spanOf (compute (← heap))
        realize computed) :=
  undisturbed_heap.bind fun _ =>
    (undisturbed_locate spanOf _).bind fun computed => undisturbed_realize computed

/-! Telling an event is the only work that one host may ask for and another one not. -/

theorem print_apply (surroundings : Surroundings σ) (arguments : List Value) (progress : Progress σ) :
    print surroundings arguments progress =
      (.ok .none, progress.told (surroundings.wants .print)
        (.print (" ".intercalate (arguments.map (Value.display progress.memory.heap)))
          (arguments.map (Value.toJson progress.memory.heap)))) := by
  unfold print
  cases surroundings.wants .print <;> rfl

theorem notifyAssign_apply (surroundings : Surroundings σ) (name : Option String) (value : Value)
    (progress : Progress σ) :
    notifyAssign surroundings name value progress =
      (.ok (), progress.told (surroundings.wants .assign)
        (.assign name (value.toJson progress.memory.heap)
          (progress.memory.scopes.snapshot progress.memory.heap surroundings.scope))) := by
  unfold notifyAssign
  cases surroundings.wants .assign <;> rfl

variable {first second : Surroundings σ}

section
variable (shares : Surroundings.Shares alike first second)
include shares

theorem undisturbed_print (arguments : List Value) :
    Undisturbed alike (print first arguments) (print second arguments) := by
  intro before after agrees
  rw [print_apply, print_apply, agrees.memory]
  exact ⟨rfl, agrees.memory, agrees.replay, agrees.host,
    shares.told (.print _ _) (.inl rfl) agrees.events, agrees.calls⟩

theorem undisturbed_notifyAssign (name : Option String) (value : Value) :
    Undisturbed alike (notifyAssign first name value) (notifyAssign second name value) := by
  intro before after agrees
  rw [notifyAssign_apply, notifyAssign_apply, agrees.memory, shares.scope]
  exact ⟨rfl, agrees.memory, agrees.replay, agrees.host,
    shares.told (.assign _ _ _) (.inr rfl) agrees.events, agrees.calls⟩

theorem undisturbed_notifyMutation (container : Node) :
    Undisturbed alike (notifyMutation first container) (notifyMutation second container) := by
  unfold notifyMutation
  refine undisturbed_get fun before after agrees => ?_
  rw [agrees.memory, shares.scope]
  exact undisturbed_notifyAssign shares _ _

theorem undisturbed_lookup (span : Span) (name : String) :
    Undisturbed alike (lookup first span name) (lookup second span name) := by
  unfold lookup
  refine undisturbed_get fun before after agrees => ?_
  rw [agrees.memory, shares.scope]
  split
  · exact undisturbed_pure _
  · exact undisturbed_fail _ _

/-! Calls. -/

omit shares in
theorem undisturbed_length (span : Span) (nodes : List Node) (arguments : List Value) :
    Undisturbed alike (length span nodes arguments : Evaluation σ Value)
      (length span nodes arguments) := by
  unfold length
  split
  · exact undisturbed_heap.bind fun _ =>
      (undisturbed_locate _ _).bind fun _ => undisturbed_pure _
  · exact undisturbed_fail _ _

theorem undisturbed_callHost (span : Span) (name : String) (index : Nat) (arguments : List Value) :
    Undisturbed alike (callHost first span name index arguments)
      (callHost second span name index arguments) := by
  unfold callHost
  refine undisturbed_heap.bind fun heap => ?_
  rw [shares.hosts]
  split
  · exact undisturbed_pure _
  · rename_i run _
    refine undisturbed_get fun before after agrees => ?_
    rw [agrees.host]
    refine Undisturbed.bind (undisturbed_of_blind fun _ _ => rfl) fun _ => ?_
    split
    · exact undisturbed_fail _ _
    · exact undisturbed_pure _
    · split
      · exact (undisturbed_setHeap _).bind fun _ => undisturbed_pure _
      · exact undisturbed_fail _ _

theorem undisturbed_apply (span : Span) (callee : Node) (nodes : List Node) (function : Value)
    (arguments : List Value) :
    Undisturbed alike (apply first span callee nodes function arguments)
      (apply second span callee nodes function arguments) := by
  unfold apply
  split
  · split
    · exact undisturbed_of_blind fun _ _ => rfl
    · exact undisturbed_fail _ _
  · unfold callBuiltin
    split
    · exact undisturbed_print shares _
    · exact undisturbed_length _ _ _
    · exact undisturbed_callHost shares _ _ _ _
  · exact undisturbed_heap.bind fun _ => undisturbed_fail _ _

end

/-! Expressions. -/

mutual

theorem undisturbed_eval (shares : Surroundings.Shares alike first second) :
    ∀ node : Node, Undisturbed alike (eval first node) (eval second node)
  | .literal _ value => by
    rw [eval, eval]
    exact (undisturbed_pure _).remember
  | .identifier span name => by
    rw [eval, eval]
    exact (undisturbed_lookup shares span name).remember
  | .unary _ _ _ operand => by
    rw [eval, eval]
    exact ((undisturbed_eval shares operand).bind fun _ => undisturbed_locate _ _).remember
  | .binary _ _ _ left right => by
    rw [eval, eval]
    exact ((undisturbed_eval shares left).bind fun _ =>
      (undisturbed_eval shares right).bind fun _ => undisturbed_computed _ _).remember
  | .call _ callee nodes => by
    rw [eval, eval]
    exact ((undisturbed_eval shares callee).bind fun _ =>
      (undisturbed_evalAll shares nodes).bind fun _ => undisturbed_apply shares _ _ _ _ _).remember
  | .element _ target index => by
    rw [eval, eval]
    exact ((undisturbed_eval shares target).bind fun _ =>
      (undisturbed_eval shares index).bind fun _ =>
        undisturbed_heap.bind fun _ => undisturbed_locate _ _).remember
  | .slice _ target start stop => by
    rw [eval, eval]
    exact ((undisturbed_eval shares target).bind fun _ =>
      (undisturbed_eval shares start).bind fun _ =>
        (undisturbed_eval shares stop).bind fun _ => undisturbed_computed _ _).remember
  | .array _ nodes => by
    rw [eval, eval]
    exact ((undisturbed_evalAll shares nodes).bind fun _ => undisturbed_realize _).remember
  | .assignment .. | .choice .. | .loop .. | .definition .. | .result .. | .pass .. | .deletion .. => by
    rw [eval, eval]
    exact (undisturbed_fail _ _).remember

theorem undisturbed_evalAll (shares : Surroundings.Shares alike first second) :
    ∀ nodes : List Node, Undisturbed alike (evalAll first nodes) (evalAll second nodes)
  | [] => by
    rw [evalAll, evalAll]
    exact undisturbed_pure _
  | node :: nodes => by
    rw [evalAll, evalAll]
    exact (undisturbed_eval shares node).bind fun _ =>
      (undisturbed_evalAll shares nodes).bind fun _ => undisturbed_pure _

end

/-! Statements. -/

section
variable (shares : Surroundings.Shares alike first second)
include shares

theorem undisturbed_condition (node : Node) :
    Undisturbed alike (condition first node) (condition second node) := by
  refine (undisturbed_eval shares node).bind fun value => ?_
  cases value.truth? with
  | some truth => exact undisturbed_pure truth
  | none => exact undisturbed_fail _ _

theorem undisturbed_firstBranch (branches : List Branch) :
    Undisturbed alike (firstBranch first branches) (firstBranch second branches) := by
  induction branches with
  | nil => exact undisturbed_pure none
  | cons branch others ih =>
    refine (undisturbed_condition shares branch.condition).bind fun truth => ?_
    split
    · exact undisturbed_pure _
    · exact ih

theorem undisturbed_mutation (container : Node) (spanOf : Culprit → Span)
    (change : Heap → Except OperationFault Heap) :
    Undisturbed alike
      (do
        setHeap (← locate spanOf (change (← heap)))
        notifyMutation first container)
      (do
        setHeap (← locate spanOf (change (← heap)))
        notifyMutation second container) :=
  undisturbed_heap.bind fun _ => (undisturbed_locate spanOf _).bind fun changed =>
    (undisturbed_setHeap changed).bind fun _ => undisturbed_notifyMutation shares container

theorem undisturbed_assignTo (target valueNode : Node) :
    Undisturbed alike (assignTo first target valueNode) (assignTo second target valueNode) := by
  refine (undisturbed_eval shares valueNode).bind fun value => ?_
  cases target with
  | identifier _ name =>
    rw [shares.scope]
    exact (undisturbed_assign _ name value).bind fun _ => undisturbed_notifyAssign shares _ value
  | element _ container index =>
    exact (undisturbed_eval shares container).bind fun _ =>
      (undisturbed_eval shares index).bind fun _ => undisturbed_mutation shares _ _ _
  | slice _ container start stop =>
    exact (undisturbed_eval shares container).bind fun _ =>
      (undisturbed_eval shares start).bind fun _ =>
        (undisturbed_eval shares stop).bind fun _ => undisturbed_mutation shares _ _ _
  | literal | unary | binary | call | array | assignment | choice | loop | definition | result
  | pass | deletion => exact undisturbed_fail _ _

theorem undisturbed_delete (target : Node) :
    Undisturbed alike (delete first target) (delete second target) := by
  cases target with
  | element _ container index =>
    exact (undisturbed_eval shares container).bind fun _ =>
      (undisturbed_eval shares index).bind fun _ => undisturbed_mutation shares _ _ _
  | slice _ container start stop =>
    exact (undisturbed_eval shares container).bind fun _ =>
      (undisturbed_eval shares start).bind fun _ =>
        (undisturbed_eval shares stop).bind fun _ => undisturbed_mutation shares _ _ _
  | literal | identifier | unary | binary | call | array | assignment | choice | loop | definition
  | result | pass | deletion => exact undisturbed_fail _ _

theorem undisturbed_define (name : String) (parameters : List String) (body : Block) :
    Undisturbed alike (define first name parameters body) (define second name parameters body) := by
  unfold define
  refine undisturbed_get fun before after agrees => ?_
  rw [agrees.memory, shares.scope]
  refine Undisturbed.bind (undisturbed_of_blind fun _ _ => rfl) fun _ => ?_
  exact (undisturbed_assign _ _ _).bind fun _ => undisturbed_notifyAssign shares _ _

theorem undisturbed_exec (node : Node) :
    Undisturbed alike (exec first node) (exec second node) := by
  cases node with
  | assignment _ target value =>
    exact (undisturbed_assignTo shares target value).bind fun _ => undisturbed_pure _
  | choice _ branch body others otherwise =>
    refine (undisturbed_firstBranch shares (.of branch body :: others)).bind fun chosen => ?_
    rw [shares.scope]
    split
    · exact undisturbed_pure _
    · split <;> exact undisturbed_pure _
  | loop _ header body =>
    refine (undisturbed_condition shares header).bind fun truth => ?_
    rw [shares.scope]
    split <;> exact undisturbed_pure _
  | definition _ name parameters body =>
    exact (undisturbed_define shares name parameters body).bind fun _ => undisturbed_pure _
  | result _ value =>
    cases value with
    | none => exact undisturbed_pure _
    | some value => exact (undisturbed_eval shares value).bind fun _ => undisturbed_pure _
  | pass => exact undisturbed_pure _
  | deletion _ target =>
    exact (undisturbed_delete shares target).bind fun _ => undisturbed_pure _
  | literal | identifier | unary | binary | call | element | slice | array =>
    exact (undisturbed_eval shares _).bind fun _ => undisturbed_pure _

end

end Evaluation

end TabScript
