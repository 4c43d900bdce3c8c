import TabScript.Proofs.Hoard.Arena

/-! Statements run alike in both memories.

A computation in a memory that gives scopes back and the same computation in one that keeps them end in
the same way, with values that differ only in the places of scopes, and leave memories that still belong
together. -/

set_option autoImplicit false

namespace TabScript

variable {σ α β : Type}

def Replay.Admitted (ledger : Ledger) (replay : Replay) : Prop :=
  ∀ (slot : Nat) (done : Evaluated), replay.slots[slot]? = some (some done) →
    ledger.Admits done.value

/-- The two states of a statement. The full one still lists what happened before the statement. -/
structure Progress.Mirrors (ledger : Ledger) (slim full : Progress σ) : Prop where
  memory : slim.memory.Mirrors ledger full.memory
  replay : slim.replay = full.replay.relocate ledger.place
  admitted : full.replay.Admitted ledger
  host : slim.host = full.host
  events : full.events = slim.events ++ ledger.events
  calls : full.calls = slim.calls ++ ledger.calls

/-- The memory of the statement may change as long as it holds admitted values. -/
theorem Progress.Mirrors.withReplay {ledger : Ledger} {before after : Progress σ}
    (mirrors : before.Mirrors ledger after) {replay : Replay} (admitted : replay.Admitted ledger) :
    Progress.Mirrors ledger { before with replay := replay.relocate ledger.place }
      { after with replay := replay } :=
  ⟨mirrors.memory, rfl, admitted, mirrors.host, mirrors.events, mirrors.calls⟩

namespace Ledger

variable (ledger : Ledger)

/-- An admitted value and what it is when scopes stand at their places. -/
def Means (slim full : Value) : Prop := slim = full.relocate ledger.place ∧ ledger.Admits full

def MeansAll (slim full : List Value) : Prop :=
  slim = full.map (Value.relocate ledger.place) ∧ ∀ value ∈ full, ledger.Admits value

def MeansComputed (slim full : Computed) : Prop :=
  slim = full.relocate ledger.place ∧ ledger.AdmitsComputed full

def MeansHeap (slim full : Heap) : Prop := slim = full.relocate ledger.place ∧ full.Closed ledger

def AdmitsCall (closure : Closure) (arguments : List Value) : Prop :=
  ledger.kept closure.scope ∧ ∀ argument ∈ arguments, ledger.Admits argument

end Ledger

namespace Evaluation

inductive Agree (ledger : Ledger) (means : α → α → Prop) :
    Except Interrupt α × Progress σ → Except Interrupt α × Progress σ → Prop where
  | ok {slim full : α} {before after : Progress σ} (same : means slim full)
    (mirrors : before.Mirrors ledger after) : Agree ledger means (.ok slim, before) (.ok full, after)
  | fail {before after : Progress σ} (fault : Fault) (mirrors : before.Mirrors ledger after) :
    Agree ledger means (.error (.fail fault), before) (.error (.fail fault), after)
  | suspend {closure : Closure} {arguments : List Value} {before after : Progress σ}
    (admitted : ledger.AdmitsCall closure arguments) (mirrors : before.Mirrors ledger after) :
    Agree ledger means
      (.error (.suspend (closure.relocate ledger.place)
        (arguments.map (Value.relocate ledger.place))), before)
      (.error (.suspend closure arguments), after)

def Alike (ledger : Ledger) (means : α → α → Prop) (slim full : Evaluation σ α) : Prop :=
  ∀ before after : Progress σ, before.Mirrors ledger after →
    Agree ledger means (slim before) (full after)

variable {ledger : Ledger} {means : α → α → Prop} {meansNext : β → β → Prop}

theorem Alike.bind {slim full : Evaluation σ α} {slimNext fullNext : α → Evaluation σ β}
    (start : Alike ledger means slim full)
    (rest : ∀ before after, means before after →
      Alike ledger meansNext (slimNext before) (fullNext after)) :
    Alike ledger meansNext (slim >>= slimNext) (full >>= fullNext) := by
  intro before after mirrors
  rw [bind_apply, bind_apply]
  have first := start before after mirrors
  generalize slim before = reached at first ⊢
  generalize full after = reached' at first ⊢
  cases first with
  | ok same mirrors => exact rest _ _ same _ _ mirrors
  | fail fault mirrors => exact .fail fault mirrors
  | suspend admitted mirrors => exact .suspend admitted mirrors

theorem alike_pure {slim full : α} (same : means slim full) :
    Alike ledger means (pure slim : Evaluation σ α) (pure full) :=
  fun _ _ mirrors => .ok same mirrors

theorem alike_fail (cause : Cause) (span : Span) :
    Alike ledger means (fail cause span : Evaluation σ α) (fail cause span) :=
  fun _ _ mirrors => .fail ⟨cause, span⟩ mirrors

theorem alike_locate (spanOf : Culprit → Span) {change : α → α} {result : Except OperationFault α}
    (same : ∀ value, result = .ok value → means (change value) value) :
    Alike ledger means (locate spanOf (result.map change) : Evaluation σ α)
      (locate spanOf result) := by
  cases result with
  | error fault => exact alike_fail _ _
  | ok value => exact alike_pure (same value rfl)

theorem alike_located (spanOf : Culprit → Span) (result : Except OperationFault α) :
    Alike ledger Eq (locate spanOf result : Evaluation σ α) (locate spanOf result) := by
  cases result with
  | error fault => exact alike_fail _ _
  | ok value => exact alike_pure rfl

theorem alike_heap : Alike ledger ledger.MeansHeap (heap : Evaluation σ Heap) heap :=
  fun _ _ mirrors => .ok ⟨mirrors.memory.heap_eq, mirrors.memory.heap⟩ mirrors

theorem alike_realize {slim full : Computed} (same : ledger.MeansComputed slim full) :
    Alike ledger ledger.Means (realize slim : Evaluation σ Value) (realize full) := by
  intro before after mirrors
  obtain ⟨⟨heap, scopes⟩, replay, host, events, calls⟩ := before
  obtain ⟨⟨heap', scopes'⟩, replay', host', events', calls'⟩ := after
  obtain ⟨rfl, admitted⟩ := same
  obtain rfl : heap = heap'.relocate ledger.place := mirrors.memory.heap_eq
  have made := (Heap.closed_makes ledger).realize mirrors.memory.heap
    (Ledger.admitsComputed_iff.1 admitted)
  have moved := heap'.realize_relocate ledger.place full
  simp only [realize, Memory.realize, moved]
  exact .ok ⟨rfl, made.2.1⟩ ⟨⟨rfl, made.1, mirrors.memory.scopes, mirrors.memory.mirrors⟩,
    mirrors.replay, mirrors.admitted, mirrors.host, mirrors.events, mirrors.calls⟩

theorem alike_setHeap {slim full : Heap} (same : ledger.MeansHeap slim full) :
    Alike ledger (fun _ _ => True) (setHeap slim : Evaluation σ Unit) (setHeap full) :=
  fun _ _ mirrors => .ok trivial ⟨⟨same.1, same.2, mirrors.memory.scopes, mirrors.memory.mirrors⟩,
    mirrors.replay, mirrors.admitted, mirrors.host, mirrors.events, mirrors.calls⟩

theorem alike_emit (event : Event) :
    Alike ledger (fun _ _ => True) (emit event : Evaluation σ Unit) (emit event) :=
  fun _ _ mirrors => .ok trivial ⟨mirrors.memory, mirrors.replay, mirrors.admitted, mirrors.host,
    congrArg (event :: ·) mirrors.events, mirrors.calls⟩

theorem alike_assign {scope : ScopeId} (live : ledger.live scope) (name : String)
    {slim full : Value} (same : ledger.Means slim full) :
    Alike ledger (fun _ _ => True) (assign (ledger.place scope) name slim : Evaluation σ Unit)
      (assign scope name full) := by
  intro before after mirrors
  obtain ⟨rfl, admitted⟩ := same
  exact .ok trivial ⟨⟨mirrors.memory.heap_eq, mirrors.memory.heap,
    mirrors.memory.scopes.assign admitted, mirrors.memory.mirrors.assign live name full⟩,
    mirrors.replay, mirrors.admitted, mirrors.host, mirrors.events, mirrors.calls⟩

theorem alike_get {slim full : Progress σ → Evaluation σ α}
    (rest : ∀ before after : Progress σ, before.Mirrors ledger after →
      Alike ledger means (slim before) (full after)) :
    Alike ledger means (get >>= slim) (get >>= full) :=
  fun before after mirrors => rest before after mirrors before after mirrors

theorem Alike.remember {slim full : Evaluation σ Value}
    (body : Alike ledger ledger.Means slim full) :
    Alike ledger ledger.Means (remember slim) (remember full) := by
  intro before after mirrors
  have moved := after.replay.take_relocate ledger.place
  rw [← mirrors.replay] at moved
  have taken := Replay.All.take mirrors.admitted
  simp only [Evaluation.remember, moved]
  rcases took : after.replay.take with ⟨value | slot, later⟩ <;> simp only [took] at taken ⊢
  · exact .ok ⟨rfl, taken.2 value rfl⟩ (mirrors.withReplay taken.1)
  · have inner := body _ _ (mirrors.withReplay taken.1)
    simp only [Taken.relocate]
    generalize slim { before with replay := later.relocate ledger.place } = reached at inner ⊢
    generalize full { after with replay := later } = reached' at inner ⊢
    cases inner with
    | @ok _ value _ _ same mirrors =>
      obtain ⟨rfl, admitted⟩ := same
      refine .ok ⟨rfl, admitted⟩ ⟨mirrors.memory, ?_, Replay.All.put mirrors.admitted admitted _ _,
        mirrors.host, mirrors.events, mirrors.calls⟩
      simp only [mirrors.replay, Replay.fill_relocate]
    | fail fault mirrors => exact .fail fault mirrors
    | suspend call mirrors =>
      refine .suspend call ⟨mirrors.memory, ?_, Replay.All.suspend mirrors.admitted _,
        mirrors.host, mirrors.events, mirrors.calls⟩
      simp only [mirrors.replay, Replay.suspend_relocate]

end Evaluation

def Surroundings.relocate (place : ScopeId → ScopeId) (surroundings : Surroundings σ) :
    Surroundings σ :=
  { surroundings with scope := place surroundings.scope }

namespace Evaluation

variable {ledger : Ledger} {surroundings : Surroundings σ}

section
variable (live : ledger.live surroundings.scope)
include live

theorem alike_lookup (span : Span) (name : String) :
    Alike ledger ledger.Means (lookup (surroundings.relocate ledger.place) span name)
      (lookup surroundings span name) := by
  refine alike_get fun before after mirrors => ?_
  have found := Arena.lookup_relocate mirrors.memory.scopes mirrors.memory.mirrors live name
  simp only [Surroundings.relocate, found]
  cases bound : after.memory.scopes.lookup surroundings.scope name with
  | none => exact alike_fail _ _
  | some value => exact alike_pure ⟨rfl, mirrors.memory.scopes.admits_lookup live bound⟩

theorem alike_notifyAssign (name : Option String) {slim full : Value}
    (same : slim = full.relocate ledger.place) :
    Alike ledger (fun _ _ => True)
      (notifyAssign (surroundings.relocate ledger.place) name slim)
      (notifyAssign surroundings name full) := by
  unfold notifyAssign
  by_cases wanted : surroundings.wants .assign
  · simp only [Surroundings.relocate, wanted, if_true]
    refine alike_get fun before after mirrors => ?_
    have seen := Arena.snapshot_relocate mirrors.memory.scopes mirrors.memory.mirrors live
      after.memory.heap
    simp only [mirrors.memory.heap_eq, same, Value.toJson_relocate, seen]
    exact alike_emit _
  · simp only [Surroundings.relocate, wanted]
    exact alike_pure trivial

theorem alike_notifyMutation (container : Node) :
    Alike ledger (fun _ _ => True)
      (notifyMutation (surroundings.relocate ledger.place) container)
      (notifyMutation surroundings container) := by
  refine alike_get fun before after mirrors => alike_notifyAssign live _ ?_
  cases rootName? container with
  | none => rfl
  | some name =>
    simp only [Option.bind_some, Surroundings.relocate,
      Arena.lookup_relocate mirrors.memory.scopes mirrors.memory.mirrors live]
    cases after.memory.scopes.lookup surroundings.scope name <;> rfl

end

theorem alike_print {slim full : List Value} (same : ledger.MeansAll slim full) :
    Alike ledger ledger.Means (print (surroundings.relocate ledger.place) slim)
      (print surroundings full) := by
  unfold print
  by_cases wanted : surroundings.wants .print
  · simp only [Surroundings.relocate, wanted, if_true]
    refine alike_heap.bind fun before after heaps => ?_
    simp only [same.1, heaps.1, List.map_map, Function.comp_def, Value.display_relocate,
      Value.toJson_relocate]
    exact (alike_emit _).bind fun _ _ _ => alike_pure ⟨rfl, trivial⟩
  · simp only [Surroundings.relocate, wanted]
    exact alike_pure ⟨rfl, trivial⟩

theorem alike_length (span : Span) (nodes : List Node) {slim full : List Value}
    (same : ledger.MeansAll slim full) :
    Alike ledger ledger.Means (length span nodes slim : Evaluation σ Value)
      (length span nodes full) := by
  obtain ⟨rfl, admitted⟩ := same
  rcases full with _ | ⟨argument, _ | ⟨second, others⟩⟩
  · exact alike_fail _ _
  · refine alike_heap.bind fun before after heaps => ?_
    rw [heaps.1, Value.length_relocate]
    refine (alike_located _ _).bind fun count other same => ?_
    rw [same]
    exact alike_pure ⟨rfl, trivial⟩
  · simp only [List.map_cons, length, List.length_cons, List.length_map]
    exact alike_fail _ _

theorem alike_callHost (span : Span) (name : String) (index : Nat) {slim full : List Value}
    (same : ledger.MeansAll slim full) :
    Alike ledger ledger.Means
      (callHost (surroundings.relocate ledger.place) span name index slim)
      (callHost surroundings span name index full) := by
  refine alike_heap.bind fun before after heaps => ?_
  -- no scope is part of what the host is told, so both sides ask it the same
  have given : slim.map (Value.toJson before) = full.map (Value.toJson after) := by
    simp [same.1, heaps.1, List.map_map, Function.comp_def]
  simp only [given, Surroundings.relocate]
  cases surroundings.hosts[index]? with
  | none => exact alike_pure ⟨rfl, trivial⟩
  | some run =>
    refine alike_get fun state state' mirrors => ?_
    simp only [mirrors.host]
    generalize run state'.host (full.map (Value.toJson after)) = answered
    obtain ⟨answer, host⟩ := answered
    have noted : Alike ledger (fun _ _ => True)
        (modify fun progress : Progress σ =>
          { progress with
            host := host, calls := ⟨name, full.map (Value.toJson after)⟩ :: progress.calls })
        (modify fun progress : Progress σ =>
          { progress with
            host := host, calls := ⟨name, full.map (Value.toJson after)⟩ :: progress.calls }) :=
      fun _ _ mirrors => .ok trivial ⟨mirrors.memory, mirrors.replay, mirrors.admitted, rfl,
        mirrors.events, congrArg (_ :: ·) mirrors.calls⟩
    refine noted.bind fun _ _ _ => ?_
    rcases answer with message | _ | json
    · exact alike_fail _ _
    · exact alike_pure ⟨rfl, trivial⟩
    · simp only [heaps.1, Value.ofJson_relocate]
      cases made : Value.ofJson after json with
      | none => exact alike_fail _ _
      | some found =>
        obtain ⟨value, larger⟩ := found
        have safe := (Heap.closed_makes ledger).ofJson heaps.2 made
        exact (alike_setHeap ⟨rfl, safe.1⟩).bind fun _ _ _ => alike_pure ⟨rfl, safe.2.1⟩

theorem alike_callBuiltin (span : Span) (builtin : Builtin) (nodes : List Node)
    {slim full : List Value} (same : ledger.MeansAll slim full) :
    Alike ledger ledger.Means
      (callBuiltin (surroundings.relocate ledger.place) span builtin nodes slim)
      (callBuiltin surroundings span builtin nodes full) := by
  unfold callBuiltin
  cases builtin.native with
  | print => exact alike_print same
  | length => exact alike_length span nodes same
  | host index => exact alike_callHost span builtin.name index same

theorem alike_apply (span : Span) (callee : Node) (nodes : List Node) {slim full : Value}
    {given others : List Value} (function : ledger.Means slim full)
    (same : ledger.MeansAll given others) :
    Alike ledger ledger.Means
      (apply (surroundings.relocate ledger.place) span callee nodes slim given)
      (apply surroundings span callee nodes full others) := by
  obtain ⟨rfl, admitted⟩ := function
  have refused : ∀ other : Value, ledger.Means (other.relocate ledger.place) other →
      Alike ledger ledger.Means
        (heap >>= fun heap => (fail (.notFunction (calleeName heap callee (other.relocate ledger.place)))
          callee.span : Evaluation σ Value))
        (heap >>= fun heap => fail (.notFunction (calleeName heap callee other)) callee.span) := by
    intro other means
    refine alike_heap.bind fun before after heaps => ?_
    have name : calleeName before callee (other.relocate ledger.place) = calleeName after callee other := by
      rw [heaps.1]
      cases callee <;> simp [calleeName]
    rw [name]
    exact alike_fail _ _
  rcases full with _ | _ | _ | _ | _ | ⟨made | builtin⟩
  case function.builtin => exact alike_callBuiltin span builtin nodes same
  case function.closure =>
    simp only [Value.relocate_closure, apply, Closure.relocate, same.1, List.length_map]
    by_cases fits : made.parameters.length = others.length
    · simp only [fits, if_true]
      exact fun _ _ mirrors => .suspend ⟨admitted, same.2⟩ mirrors
    · simp only [fits, if_false]
      exact alike_fail _ _
  all_goals exact refused _ ⟨rfl, admitted⟩

section
variable (live : ledger.live surroundings.scope)

theorem alike_computed (spanOf : Culprit → Span) {slim full : Heap → Except OperationFault Computed}
    (same : ∀ heap : Heap, slim (heap.relocate ledger.place) =
      (full heap).map (Computed.relocate ledger.place))
    (admitted : ∀ heap computed, heap.Closed ledger → full heap = .ok computed →
      ledger.AdmitsComputed computed) :
    Alike ledger ledger.Means
      (do
        let computed ← locate spanOf (slim (← heap))
        realize computed : Evaluation σ Value)
      (do
        let computed ← locate spanOf (full (← heap))
        realize computed) := by
  refine alike_heap.bind fun before after heaps => ?_
  rw [heaps.1, same]
  refine Alike.bind (?_ : Alike ledger ledger.MeansComputed _ _) fun _ _ => alike_realize
  exact alike_locate spanOf fun computed found => ⟨rfl, admitted after computed heaps.2 found⟩

include live

theorem alike_mutation (container : Node) (spanOf : Culprit → Span)
    {slim full : Heap → Except OperationFault Heap}
    (same : ∀ heap : Heap, slim (heap.relocate ledger.place) =
      (full heap).map (Heap.relocate ledger.place))
    (closed : ∀ heap changed, heap.Closed ledger → full heap = .ok changed → changed.Closed ledger) :
    Alike ledger (fun _ _ => True)
      (do
        setHeap (← locate spanOf (slim (← heap)))
        notifyMutation (surroundings.relocate ledger.place) container)
      (do
        setHeap (← locate spanOf (full (← heap)))
        notifyMutation surroundings container) := by
  refine alike_heap.bind fun before after heaps => ?_
  rw [heaps.1, same]
  refine Alike.bind (?_ : Alike ledger ledger.MeansHeap _ _) fun _ _ changed =>
    (alike_setHeap changed).bind fun _ _ _ => alike_notifyMutation live container
  exact alike_locate spanOf fun changed found => ⟨rfl, closed after changed heaps.2 found⟩

-- a list of expressions uses the assumption for its items only
set_option linter.unusedSectionVars false in
mutual

theorem alike_eval : ∀ node : Node,
    Alike ledger ledger.Means (eval (surroundings.relocate ledger.place) node)
      (eval surroundings node)
  | .literal _ value => by
    rw [eval, eval]
    refine (alike_pure ⟨(Value.relocate_ofLiteral _ value).symm, ?_⟩).remember
    rcases value with _ | _ | _ | _ <;> trivial
  | .identifier span name => by
    rw [eval, eval]
    exact (alike_lookup live span name).remember
  | .unary _ operator operatorSpan operand => by
    rw [eval, eval]
    refine ((alike_eval operand).bind fun slim full same => ?_).remember
    rw [same.1, Value.unary_relocate]
    exact alike_locate _ fun value found => ⟨rfl, ledger.admits_plain.unary found⟩
  | .binary _ operator operatorSpan left right => by
    rw [eval, eval]
    refine ((alike_eval left).bind fun slim full first => ?_).remember
    refine (alike_eval right).bind fun slim' full' second => ?_
    refine alike_computed _ (fun heap => ?_) fun heap computed closed found =>
      Ledger.admitsComputed_iff.2 (Value.keeps_binary closed.keeps first.2 second.2 found)
    rw [first.1, second.1, Value.binary_relocate]
  | .call span callee nodes => by
    rw [eval, eval]
    refine ((alike_eval callee).bind fun slim full function => ?_).remember
    exact (alike_evalAll nodes).bind fun given others same =>
      alike_apply span callee nodes function same
  | .element span target index => by
    rw [eval, eval]
    refine ((alike_eval target).bind fun slim full container => ?_).remember
    refine (alike_eval index).bind fun slim' full' position => ?_
    refine alike_heap.bind fun before after heaps => ?_
    rw [heaps.1, container.1, position.1, Value.element_relocate]
    exact alike_locate _ fun value found => ⟨rfl, Value.keeps_element heaps.2.keeps container.2 found⟩
  | .slice span target start stop => by
    rw [eval, eval]
    refine ((alike_eval target).bind fun slim full container => ?_).remember
    refine (alike_eval start).bind fun _ _ first => ?_
    refine (alike_eval stop).bind fun _ _ last => ?_
    refine alike_computed _ (fun heap => ?_) fun heap computed closed found =>
      Ledger.admitsComputed_iff.2 (Value.keeps_slice closed.keeps container.2 found)
    rw [container.1, first.1, last.1, Value.slice_relocate]
  | .array _ nodes => by
    rw [eval, eval]
    refine ((alike_evalAll nodes).bind fun slim full same => ?_).remember
    exact alike_realize ⟨congrArg Computed.items same.1, same.2⟩
  | .assignment span _ _ | .choice span _ _ _ _ | .loop span _ _ | .definition span _ _ _
  | .result span _ | .pass span | .deletion span _ => by
    rw [eval, eval]
    exact (alike_fail _ _).remember

theorem alike_evalAll : ∀ nodes : List Node,
    Alike ledger ledger.MeansAll (evalAll (surroundings.relocate ledger.place) nodes)
      (evalAll surroundings nodes)
  | [] => by
    rw [evalAll, evalAll]
    exact alike_pure ⟨rfl, by simp⟩
  | node :: nodes => by
    rw [evalAll, evalAll]
    refine (alike_eval node).bind fun slim full first => ?_
    refine (alike_evalAll nodes).bind fun slims fulls others => alike_pure ⟨?_, ?_⟩
    · rw [first.1, others.1, List.map_cons]
    · intro value inside
      rcases List.mem_cons.1 inside with rfl | inside
      · exact first.2
      · exact others.2 value inside

end

theorem alike_condition (node : Node) :
    Alike ledger Eq (condition (surroundings.relocate ledger.place) node)
      (condition surroundings node) := by
  refine (alike_eval live node).bind fun slim full same => ?_
  rw [same.1, Value.truth?_relocate, Value.kind_relocate]
  cases full.truth? with
  | some truth => exact alike_pure rfl
  | none => exact alike_fail _ _

theorem alike_firstBranch (branches : List Branch) :
    Alike ledger Eq (firstBranch (surroundings.relocate ledger.place) branches)
      (firstBranch surroundings branches) := by
  induction branches with
  | nil => exact alike_pure rfl
  | cons branch others ih =>
    refine (alike_condition live branch.condition).bind fun truth other same => ?_
    subst same
    cases truth with
    | true => exact alike_pure rfl
    | false => exact ih

theorem alike_assignTo (target valueNode : Node) :
    Alike ledger (fun _ _ => True) (assignTo (surroundings.relocate ledger.place) target valueNode)
      (assignTo surroundings target valueNode) := by
  refine (alike_eval live valueNode).bind fun slim full assigned => ?_
  cases target with
  | identifier _ name =>
    exact (alike_assign live name assigned).bind fun _ _ _ =>
      alike_notifyAssign live _ assigned.1
  | element span container index =>
    refine (alike_eval live container).bind fun _ _ root => ?_
    refine (alike_eval live index).bind fun _ _ position => ?_
    refine alike_mutation live container _ (fun heap => ?_) fun heap changed closed found =>
      closed.changes (Value.changes_setElement found) (by simpa using ⟨root.2, assigned.2⟩)
    rw [root.1, position.1, assigned.1, Value.setElement_relocate]
  | slice span container start stop =>
    refine (alike_eval live container).bind fun _ _ root => ?_
    refine (alike_eval live start).bind fun _ _ first => ?_
    refine (alike_eval live stop).bind fun _ _ last => ?_
    refine alike_mutation live container _ (fun heap => ?_) fun heap changed closed found =>
      closed.changes (Value.changes_setSlice found) (by simpa using ⟨root.2, assigned.2⟩)
    rw [root.1, first.1, last.1, assigned.1, Value.setSlice_relocate]
  | literal | unary | binary | call | array | assignment | choice | loop | definition | result
  | pass | deletion => exact alike_fail _ _

theorem alike_delete (target : Node) :
    Alike ledger (fun _ _ => True) (delete (surroundings.relocate ledger.place) target)
      (delete surroundings target) := by
  cases target with
  | element span container index =>
    refine (alike_eval live container).bind fun slim full root => ?_
    refine (alike_eval live index).bind fun _ _ position => ?_
    refine alike_mutation live container _ (fun heap => ?_) fun heap changed closed found =>
      closed.changes (Value.changes_deleteElement found) (by simpa using root.2)
    rw [root.1, position.1, Value.deleteElement_relocate]
  | slice span container start stop =>
    refine (alike_eval live container).bind fun slim full root => ?_
    refine (alike_eval live start).bind fun _ _ first => ?_
    refine (alike_eval live stop).bind fun _ _ last => ?_
    refine alike_mutation live container _ (fun heap => ?_) fun heap changed closed found =>
      closed.changes (Value.changes_deleteSlice found) (by simpa using root.2)
    rw [root.1, first.1, last.1, Value.deleteSlice_relocate]
  | literal | identifier | unary | binary | call | array | assignment | choice | loop | definition
  | result | pass | deletion => exact alike_fail _ _

end

end Evaluation

namespace Ledger

def keeping (ledger : Ledger) (scope : ScopeId) : Ledger :=
  { ledger with kept := fun id => ledger.kept id ∨ id = scope }

def AdmitsFlow (ledger : Ledger) : Flow → Prop
  | .next => True
  | .enter inner => ledger.live inner.scope ∧ inner.replay.Admitted ledger
  | .leave value => ledger.Admits value

def MeansFlow (ledger : Ledger) (slim full : Flow) : Prop :=
  slim = full.relocate ledger.place ∧ ledger.AdmitsFlow full

variable {ledger : Ledger}

theorem admits_keeping (scope : ScopeId) {value : Value} (admitted : ledger.Admits value) :
    (ledger.keeping scope).Admits value := by
  rcases value with _ | _ | _ | _ | _ | ⟨_ | _⟩
  case function.closure => exact .inl admitted
  all_goals exact admitted

end Ledger

theorem Memory.Mirrors.capture {ledger : Ledger} {slim full : Memory}
    (mirrors : slim.Mirrors ledger full) {scope : ScopeId} (live : ledger.live scope) :
    Memory.Mirrors (ledger.keeping scope)
      { slim with scopes := slim.scopes.capture (ledger.place scope) }
      { full with scopes := full.scopes.capture scope } where
  heap_eq := mirrors.heap_eq
  heap := ⟨fun known item inside => Ledger.admits_keeping scope (mirrors.heap.items known item inside),
    mirrors.heap.fresh⟩
  scopes := by
    have closed := mirrors.scopes
    refine ⟨closed.unused, by simpa [Arena.capture, Arena.modify, Ledger.keeping] using closed.size,
      .inl closed.global, fun kept => kept.elim closed.live fun same => same ▸ live, ?_⟩
    intro id known
    obtain ⟨found, present, inside⟩ := closed.scope known
    have bindings : ∀ bound ∈ found.bindings, (ledger.keeping scope).Admits bound.2 := fun bound here =>
      Ledger.admits_keeping scope (inside.bindings bound here)
    have parent : ∀ {outer : ScopeId}, found.parent = some outer →
        (ledger.keeping scope).kept outer ∧ outer.slot < id.slot := fun outside =>
      ⟨.inl (inside.parent outside).1, (inside.parent outside).2⟩
    simp only [Arena.capture, Arena.scope?_modify]
    -- only of the captured scope is more asked now, and that it is captured
    by_cases same : id = scope
    · subst same
      exact ⟨{ found with captured := true }, by simp [present],
        ⟨parent, inside.outermost, bindings, fun _ => rfl⟩⟩
    · exact ⟨found, by rw [if_neg same, present], ⟨parent, inside.outermost, bindings, fun kept =>
        inside.captured (kept.resolve_right same)⟩⟩
  mirrors := by
    have changed := mirrors.mirrors.capture live
    exact ⟨changed.scope_eq, changed.apart, changed.last, changed.occupied, changed.vacant, changed.nodup⟩

namespace Evaluation

variable {ledger : Ledger} {surroundings : Surroundings σ}

theorem agree_define (live : ledger.live surroundings.scope) (name : String)
    (parameters : List String) (body : Block) {before after : Progress σ}
    (mirrors : before.Mirrors ledger after) :
    Agree (ledger.keeping surroundings.scope) (fun _ _ => True)
      (define (surroundings.relocate ledger.place) name parameters body before)
      (define surroundings name parameters body after) := by
  have heaps := mirrors.memory.heap_eq
  have captured := mirrors.memory.capture live
  have live' : (ledger.keeping surroundings.scope).live surroundings.scope := live
  let made : Closure :=
    ⟨name, parameters, body.statements, surroundings.scope, after.memory.heap.identities⟩
  have same : Ledger.Means (ledger.keeping surroundings.scope)
      (.function (.closure (made.relocate ledger.place))) (.function (.closure made)) :=
    ⟨rfl, .inr rfl⟩
  have bound : Alike (ledger.keeping surroundings.scope) (fun _ _ => True)
      (do
        assign (ledger.place surroundings.scope) name
          (.function (.closure (made.relocate ledger.place)))
        notifyAssign (surroundings.relocate ledger.place) (some name)
          (.function (.closure (made.relocate ledger.place))))
      (do
        assign surroundings.scope name (.function (.closure made))
        notifyAssign surroundings (some name) (.function (.closure made))) :=
    (alike_assign live' name same).bind fun _ _ _ => alike_notifyAssign live' (some name) same.1
  -- a new identity and a captured scope, before anything is bound: no place changes, only what is kept
  have moved : Progress.Mirrors (ledger.keeping surroundings.scope)
      { before with
        memory := ⟨before.memory.heap.identify.2,
          before.memory.scopes.capture (ledger.place surroundings.scope)⟩ }
      { after with
        memory := ⟨after.memory.heap.identify.2,
          after.memory.scopes.capture surroundings.scope⟩ } := by
    refine ⟨⟨?_, ⟨captured.heap.items, captured.heap.fresh⟩, captured.scopes, captured.mirrors⟩,
      mirrors.replay, ?_, mirrors.host, mirrors.events, mirrors.calls⟩
    · simp [heaps, Heap.identify, Heap.relocate, Ledger.keeping]
    · exact fun slot done present => Ledger.admits_keeping _ (mirrors.admitted slot done present)
  have ended := bound _ _ moved
  have numbered : before.memory.heap.identities = after.memory.heap.identities := by
    rw [heaps]
    rfl
  have here : define (surroundings.relocate ledger.place) name parameters body before =
      (do
        assign (ledger.place surroundings.scope) name
          (.function (.closure (made.relocate ledger.place)))
        notifyAssign (surroundings.relocate ledger.place) (some name)
          (.function (.closure (made.relocate ledger.place))) : Evaluation σ Unit)
        { before with
          memory := ⟨before.memory.heap.identify.2,
            before.memory.scopes.capture (ledger.place surroundings.scope)⟩ } := by
    simp only [made, Closure.relocate, ← numbered]
    rfl
  rw [here]
  exact ended

section
variable (live : ledger.live surroundings.scope)
include live

/-- Every other statement changes nothing about what functions lead to. -/
theorem alike_exec (node : Node) (plain : ∀ span name parameters body,
      node ≠ .definition span name parameters body) :
    Alike ledger ledger.MeansFlow (exec (surroundings.relocate ledger.place) node)
      (exec surroundings node) := by
  have next : Alike ledger ledger.MeansFlow (pure Flow.next : Evaluation σ Flow) (pure Flow.next) :=
    alike_pure ⟨rfl, trivial⟩
  cases node with
  | assignment span target value => exact (alike_assignTo live target value).bind fun _ _ _ => next
  | choice span first body others otherwise =>
    refine (alike_firstBranch live (.of first body :: others)).bind fun chosen other same => ?_
    subst same
    cases chosen with
    | some block =>
      exact alike_pure ⟨congrArg Flow.enter (Activity.block_relocate _ _ _).symm, live,
        Replay.all_fresh⟩
    | none =>
      cases otherwise with
      | some block =>
        exact alike_pure ⟨congrArg Flow.enter (Activity.block_relocate _ _ _).symm, live,
          Replay.all_fresh⟩
      | none => exact next
  | loop span header body =>
    refine (alike_condition live header).bind fun truth other same => ?_
    subst same
    cases truth with
    | true =>
      exact alike_pure ⟨congrArg Flow.enter (Activity.round_relocate _ _ _ _).symm, live,
        Replay.all_fresh⟩
    | false => exact next
  | definition span name parameters body => exact absurd rfl (plain _ _ _ _)
  | result span value =>
    cases value with
    | none => exact alike_pure ⟨rfl, trivial⟩
    | some value =>
      exact (alike_eval live value).bind fun _ _ same =>
        alike_pure ⟨congrArg Flow.leave same.1, same.2⟩
  | pass span => exact next
  | deletion span target => exact (alike_delete live target).bind fun _ _ _ => next
  | literal | identifier | unary | binary | call | element | slice | array =>
    exact (alike_eval live _).bind fun _ _ _ => next

end

end Evaluation

end TabScript
