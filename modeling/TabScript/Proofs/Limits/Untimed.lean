import TabScript.Proofs.Checks.Run
import TabScript.Proofs.Observers.Heard
import TabScript.Proofs.Replay.Composed

/-! Only a limit ends a run for its length, and hooks hear of the end of a program only when it has come.

Neither is the work of a statement: no part of one fails for the length of the run, and all that it tells
the hooks is what it prints and what it assigns. -/

set_option autoImplicit false

namespace TabScript

variable {σ α β : Type}

theorem Cause.kind_eq_timeout {cause : Cause} : cause.kind = .executionTimeout ↔ cause = .timeout := by
  constructor
  · intro kind
    cases cause with
    | timeout => rfl
    | operation fault => cases fault <;> cases kind
    | _ => cases kind
  · rintro rfl
    rfl

def Event.Amid (events : List Event) : Prop := ∀ event ∈ events, event.kind ≠ .exit

def Observation.Amid (observed : List Observation) : Prop :=
  ∀ hook scope, .delivered hook (.exit scope) ∉ observed

namespace Observation

theorem amid_iff {observed : List Observation} : Amid observed ↔ Only (fun _ kind => kind ≠ .exit) observed := by
  constructor
  · intro amid hook event inside ended
    cases event with
    | exit scope => exact amid hook scope inside
    | load | print | assign => cases ended
  · intro only hook scope inside
    exact only hook _ inside rfl

theorem Amid.append {first second : List Observation} (before : Amid first) (after : Amid second) :
    Amid (first ++ second) :=
  amid_iff.2 ((amid_iff.1 before).append (amid_iff.1 after))

theorem amid_deliver {event : Event} (amid : event.kind ≠ .exit) (hooks : List EventKind) :
    Amid (event.deliver hooks) :=
  amid_iff.2 (only_deliver fun _ _ => amid)

theorem amid_called (calls : List HostCall) : Amid (calls.map Observation.called) :=
  amid_iff.2 (only_called calls)

theorem amid_events {events : List Event} (amid : Event.Amid events) (hooks : List EventKind) :
    Amid (events.reverse.flatMap (Event.deliver hooks)) :=
  amid_iff.2 (only_events fun event inside _ _ => amid event inside)

end Observation

namespace Evaluation

/-- An action does not fail for the length of the run, and it adds no event about the end. -/
structure Untimed (action : Evaluation σ α) : Prop where
  timely (before : Progress σ) {fault : Fault} :
    (action before).1 = .error (.fail fault) → fault.cause ≠ .timeout
  amid (before : Progress σ) : Event.Amid before.events → Event.Amid (action before).2.events

theorem Untimed.bind {first : Evaluation σ α} {next : α → Evaluation σ β} (start : Untimed first)
    (rest : ∀ value, Untimed (next value)) : Untimed (first >>= next) := by
  constructor
  · intro before fault
    rw [bind_apply]
    rcases reached : first before with ⟨interrupt | value, after⟩
    · intro fails
      refine start.timely before ?_
      rw [reached]
      cases fails
      rfl
    · exact (rest value).timely after
  · intro before quiet
    rw [bind_apply]
    have amid := start.amid before quiet
    rcases reached : first before with ⟨interrupt | value, after⟩
    · rw [reached] at amid
      exact amid
    · rw [reached] at amid
      exact (rest value).amid after amid

/-- The memory of the statement does not matter to how it fails or what it tells. -/
theorem Untimed.remember {body : Evaluation σ Value} (parts : Untimed body) :
    Untimed (remember body) := by
  constructor
  · intro before fault fails
    unfold Evaluation.remember at fails
    split at fails
    · cases fails
    · split at fails
      · cases fails
      · cases fails
      · rename_i reached
        cases fails
        exact parts.timely _ (congrArg Prod.fst reached)
  · intro before quiet
    unfold Evaluation.remember
    split
    · exact quiet
    -- no value is replayed, and the body itself is run
    · rename_i replay _
      have amid := parts.amid { before with replay := replay } quiet
      split <;>
      · rename_i reached
        rw [reached] at amid
        exact amid

theorem untimed_silent {action : Evaluation σ α}
    (succeeds : ∀ before, ∃ value, (action before).1 = .ok value)
    (silent : ∀ before, (action before).2.events = before.events) : Untimed action := by
  constructor
  · intro before fault fails
    obtain ⟨value, ended⟩ := succeeds before
    rw [ended] at fails
    cases fails
  · intro before quiet
    rw [silent before]
    exact quiet

theorem untimed_pure (value : α) : Untimed (pure value : Evaluation σ α) :=
  untimed_silent (fun _ => ⟨value, rfl⟩) fun _ => rfl

theorem untimed_fail (cause : Cause) (span : Span) (timely : cause ≠ .timeout) :
    Untimed (fail cause span : Evaluation σ α) := by
  constructor
  · intro before fault fails
    cases fails
    exact timely
  · exact fun _ quiet => quiet

theorem untimed_heap : Untimed (heap : Evaluation σ Heap) :=
  untimed_silent (fun before => ⟨before.memory.heap, rfl⟩) fun _ => rfl

theorem untimed_realize (computed : Computed) : Untimed (realize computed : Evaluation σ Value) :=
  untimed_silent (fun before => ⟨(before.memory.realize computed).1, rfl⟩) fun _ => rfl

theorem untimed_setHeap (changed : Heap) : Untimed (setHeap changed : Evaluation σ Unit) :=
  untimed_silent (fun _ => ⟨(), rfl⟩) fun _ => rfl

theorem untimed_assign (scope : ScopeId) (name : String) (value : Value) :
    Untimed (assign scope name value : Evaluation σ Unit) :=
  untimed_silent (fun _ => ⟨(), rfl⟩) fun _ => rfl

theorem untimed_modify (change : Progress σ → Progress σ)
    (silent : ∀ before, (change before).events = before.events) :
    Untimed (modify change : Evaluation σ Unit) :=
  untimed_silent (fun _ => ⟨(), rfl⟩) silent

theorem untimed_get {next : Progress σ → Evaluation σ α} (rest : ∀ progress, Untimed (next progress)) :
    Untimed (get >>= next) := by
  constructor
  · intro before fault fails
    exact (rest before).timely before fails
  · intro before quiet
    exact (rest before).amid before quiet

theorem untimed_emit (event : Event) (amid : event.kind ≠ .exit) :
    Untimed (emit event : Evaluation σ Unit) := by
  constructor
  · intro before fault fails
    cases fails
  · intro before quiet other inside
    rcases List.mem_cons.1 inside with rfl | inside
    · exact amid
    · exact quiet other inside

theorem untimed_locate (spanOf : Culprit → Span) (result : Except OperationFault α) :
    Untimed (locate spanOf result : Evaluation σ α) := by
  cases result with
  | ok value => exact untimed_pure value
  | error fault => exact untimed_fail _ _ (by simp)

variable (surroundings : Surroundings σ)

theorem untimed_lookup (span : Span) (name : String) : Untimed (lookup surroundings span name) := by
  refine untimed_get fun progress => ?_
  split
  · exact untimed_pure _
  · exact untimed_fail _ _ (by simp)

theorem untimed_notifyAssign (name : Option String) (value : Value) :
    Untimed (notifyAssign surroundings name value) := by
  unfold notifyAssign
  split
  · exact untimed_get fun _ => untimed_emit _ (by simp [Event.kind])
  · exact untimed_pure _

theorem untimed_notifyMutation (container : Node) :
    Untimed (notifyMutation surroundings container) :=
  untimed_get fun _ => untimed_notifyAssign surroundings _ _

theorem untimed_define (name : String) (parameters : List String) (body : Block) :
    Untimed (define surroundings name parameters body) := by
  refine untimed_get fun progress => Untimed.bind ?_ fun _ => ?_
  · exact untimed_modify _ fun _ => rfl
  · exact (untimed_assign _ _ _).bind fun _ => untimed_notifyAssign surroundings _ _

theorem untimed_print (arguments : List Value) : Untimed (print surroundings arguments) := by
  unfold print
  split
  · exact untimed_heap.bind fun _ =>
      (untimed_emit _ (by simp [Event.kind])).bind fun _ => untimed_pure _
  · exact untimed_pure _

theorem untimed_length (span : Span) (nodes : List Node) (arguments : List Value) :
    Untimed (length span nodes arguments : Evaluation σ Value) := by
  unfold length
  split
  · exact untimed_heap.bind fun _ => (untimed_locate _ _).bind fun _ => untimed_pure _
  · exact untimed_fail _ _ (by simp)

theorem untimed_callHost (span : Span) (name : String) (index : Nat) (arguments : List Value) :
    Untimed (callHost surroundings span name index arguments) := by
  refine untimed_heap.bind fun heap => ?_
  split
  · exact untimed_pure _
  · refine untimed_get fun progress => Untimed.bind ?_ fun _ => ?_
    · exact untimed_modify _ fun _ => rfl
    · split
      · exact untimed_fail _ _ (by simp)
      · exact untimed_pure _
      · split
        · exact (untimed_setHeap _).bind fun _ => untimed_pure _
        · exact untimed_fail _ _ (by simp)

theorem untimed_apply (span : Span) (callee : Node) (nodes : List Node) (function : Value)
    (arguments : List Value) : Untimed (apply surroundings span callee nodes function arguments) := by
  unfold apply
  split
  · split
    · constructor
      · intro before fault fails
        cases fails
      · exact fun _ quiet => quiet
    · exact untimed_fail _ _ (by simp)
  · unfold callBuiltin
    split
    · exact untimed_print surroundings arguments
    · exact untimed_length span nodes arguments
    · exact untimed_callHost surroundings span _ _ arguments
  · exact untimed_heap.bind fun _ => untimed_fail _ _ (by simp)

theorem untimed_actions : Actions surroundings fun _ part => Untimed part where
  pure := untimed_pure
  fail := untimed_fail
  heap := untimed_heap
  realize := untimed_realize
  lookup := untimed_lookup surroundings
  setHeap := untimed_setHeap
  assign := untimed_assign surroundings.scope
  notifyAssign := untimed_notifyAssign surroundings
  notifyMutation := untimed_notifyMutation surroundings
  define := untimed_define surroundings

theorem Composed.untimed {inside : Bool} {part : Evaluation σ α}
    (parts : Composed (fun _ part => Untimed part) Untimed inside α part) : Untimed part := by
  induction parts with
  | action good => exact good
  | ask good => exact good
  | bind _ _ start rest => exact start.bind rest
  | expression _ body => exact body.remember

theorem untimed_exec (node : Node) : Untimed (exec surroundings node) :=
  (composed_exec (untimed_actions surroundings) (untimed_apply surroundings) node).untimed

end Evaluation

namespace Machine

variable {machine : Machine σ}

theorem next_of_continues {info : StepInfo} (goes : machine.step.result = .ok (some info)) :
    machine.status = .running ∧
      ∃ activity node rest, machine.settled.next = some (activity, node, rest) := by
  by_cases running : machine.status = .running
  · refine ⟨running, ?_⟩
    cases next : machine.settled.next with
    | some upcoming => exact ⟨_, _, _, rfl⟩
    | none =>
      rw [step_eq running, next] at goes
      cases goes
  · simp only [step, running, if_false] at goes
    cases goes

theorem timely_step {fault : Fault} (fails : machine.step.result = .error fault) :
    fault.cause ≠ .timeout := by
  have running := running_of_fails fails
  obtain ⟨activity, node, rest, -, ended⟩ := step_fails running fails
  rcases ended with ended | ⟨rfl, -⟩
  · exact (Evaluation.untimed_exec _ node).timely _ ended
  · simp

theorem amid_step {info : StepInfo} (goes : machine.step.result = .ok (some info)) :
    Observation.Amid machine.step.observed := by
  obtain ⟨running, activity, node, rest, next⟩ := next_of_continues goes
  have quiet : Event.Amid (machine.attempt machine.settled.memory activity node).2.events :=
    (Evaluation.untimed_exec _ node).amid _ fun _ inside => by cases inside
  rw [step_of_next running next] at goes ⊢
  dsimp only at goes ⊢
  split at goes
  · exact (Observation.amid_called _).append (Observation.amid_events quiet machine.hooks)
  · cases goes

end Machine

end TabScript
