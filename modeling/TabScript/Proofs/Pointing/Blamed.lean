import TabScript.Proofs.Pointing.Tree
import TabScript.Proofs.Provenance.Run

/-! What is blamed when a statement fails.

Whatever the values are, a statement fails at one of its parts. So if the statement was read from a text, what
is blamed stands there. -/

set_option autoImplicit false

namespace TabScript

variable {σ α β : Type} {source : List Char}

namespace Evaluation

def Blames (source : List Char) (computation : Evaluation σ α) : Prop :=
  ∀ (progress : Progress σ) (fault : Fault), (computation progress).1 = .error (.fail fault) →
    fault.span.PointsInto source

theorem Blames.bind {first : Evaluation σ α} {next : α → Evaluation σ β} (start : Blames source first)
    (rest : ∀ value, Blames source (next value)) : Blames source (first >>= next) := by
  intro progress fault failed
  rw [bind_apply] at failed
  rcases begun : first progress with ⟨interrupt | value, middle⟩
  · rw [begun] at failed
    have same : interrupt = .fail fault := Except.error.inj failed
    refine start progress fault ?_
    rw [begun, same]
  · rw [begun] at failed
    exact rest value middle fault failed

theorem blames_nothing {computation : Evaluation σ α}
    (works : ∀ progress, ∃ value, (computation progress).1 = .ok value) : Blames source computation := by
  intro progress fault failed
  obtain ⟨value, done⟩ := works progress
  cases done.symm.trans failed

theorem blames_pure (value : α) : Blames source (pure value : Evaluation σ α) :=
  blames_nothing fun _ => ⟨value, rfl⟩

theorem blames_heap : Blames source (heap : Evaluation σ Heap) := blames_nothing fun _ => ⟨_, rfl⟩

theorem blames_get : Blames source (get : Evaluation σ (Progress σ)) := blames_nothing fun _ => ⟨_, rfl⟩

theorem blames_modify (change : Progress σ → Progress σ) :
    Blames source (modify change : Evaluation σ Unit) := blames_nothing fun _ => ⟨_, rfl⟩

theorem blames_setHeap (changed : Heap) : Blames source (setHeap changed : Evaluation σ Unit) :=
  blames_nothing fun _ => ⟨_, rfl⟩

theorem blames_assign (scope : ScopeId) (name : String) (value : Value) :
    Blames source (assign scope name value : Evaluation σ Unit) := blames_nothing fun _ => ⟨_, rfl⟩

theorem blames_realize (computed : Computed) : Blames source (realize computed : Evaluation σ Value) :=
  blames_nothing fun _ => ⟨_, rfl⟩

theorem blames_fail {cause : Cause} {span : Span} (points : span.PointsInto source) :
    Blames source (fail cause span : Evaluation σ α) := by
  intro progress fault failed
  cases failed
  exact points

theorem blames_locate {spanOf : Culprit → Span} (points : ∀ culprit, (spanOf culprit).PointsInto source)
    (result : Except OperationFault α) : Blames source (locate spanOf result : Evaluation σ α) := by
  cases result with
  | ok value => exact blames_pure value
  | error fault => exact blames_fail (points fault.culprit)

theorem Blames.remember {body : Evaluation σ Value} (inner : Blames source body) :
    Blames source (remember body) := by
  intro progress fault failed
  unfold Evaluation.remember at failed
  rcases took : progress.replay.take with ⟨value | slot, replay⟩
  · simp only [took] at failed
    cases failed
  · simp only [took] at failed
    have blamed := inner { progress with replay := replay } fault
    rcases ended : body { progress with replay := replay } with ⟨(other | _) | _, after⟩ <;>
      rw [ended] at failed blamed
    · exact blamed failed
    · cases failed
    · cases failed

variable {surroundings : Surroundings σ}

theorem blames_emit (event : Event) : Blames source (emit event : Evaluation σ Unit) :=
  blames_modify _

theorem blames_notifyAssign (name : Option String) (value : Value) :
    Blames source (notifyAssign surroundings name value) := by
  unfold notifyAssign
  split
  · exact blames_get.bind fun progress => blames_emit _
  · exact blames_pure _

theorem blames_notifyMutation (container : Node) :
    Blames source (notifyMutation surroundings container) :=
  blames_get.bind fun _ => blames_notifyAssign _ _

section
variable {span : Span} (points : span.PointsInto source)
include points

theorem blames_lookup (name : String) : Blames source (lookup surroundings span name) := by
  refine blames_get.bind fun progress => ?_
  split
  · exact blames_pure _
  · exact blames_fail points

theorem blames_length {nodes : List Node} (given : ∀ node ∈ nodes, node.span.PointsInto source)
    (arguments : List Value) : Blames source (length span nodes arguments : Evaluation σ Value) := by
  unfold length
  split
  · refine blames_heap.bind fun heap => ?_
    refine Blames.bind (blames_locate (fun _ => ?_) _) fun _ => blames_pure _
    cases nodes with
    | nil => exact points
    | cons first others => exact given first List.mem_cons_self
  · exact blames_fail points

theorem blames_callHost (name : String) (index : Nat) (arguments : List Value) :
    Blames source (callHost surroundings span name index arguments) := by
  refine blames_heap.bind fun heap => ?_
  split
  · exact blames_pure _
  · refine blames_get.bind fun progress => (blames_modify _).bind fun _ => ?_
    split
    · exact blames_fail points
    · exact blames_pure _
    · split
      · exact (blames_setHeap _).bind fun _ => blames_pure _
      · exact blames_fail points

theorem blames_callBuiltin (builtin : Builtin) {nodes : List Node}
    (given : ∀ node ∈ nodes, node.span.PointsInto source) (arguments : List Value) :
    Blames source (callBuiltin surroundings span builtin nodes arguments) := by
  unfold callBuiltin
  split
  · unfold print
    split
    · exact blames_heap.bind fun _ => (blames_emit _).bind fun _ => blames_pure _
    · exact blames_pure _
  · exact blames_length points given arguments
  · exact blames_callHost points _ _ arguments

theorem blames_apply {callee : Node} (called : callee.span.PointsInto source) {nodes : List Node}
    (given : ∀ node ∈ nodes, node.span.PointsInto source) (function : Value) (arguments : List Value) :
    Blames source (apply surroundings span callee nodes function arguments) := by
  unfold apply
  split
  · split
    · exact fun _ _ failed => by cases failed
    · exact blames_fail points
  · exact blames_callBuiltin points _ given arguments
  · exact blames_heap.bind fun _ => blames_fail called

theorem points_elementSpan {target index : Node} (container : target.Sited source)
    (position : index.Sited source) (culprit : Culprit) :
    (elementSpan span target index culprit).PointsInto source := by
  cases culprit with
  | target => exact container.span
  | operand => exact position.span
  | _ => exact points

theorem points_sliceSpan {target start stop : Node} (container : target.Sited source)
    (first : start.Sited source) (last : stop.Sited source) (culprit : Culprit) :
    (sliceSpan span target start stop culprit).PointsInto source := by
  cases culprit with
  | target => exact container.span
  | operand => exact first.span.union last.span.toRuns
  | sliceStart => exact first.span
  | sliceStop => exact last.span
  | operator => exact points

end

theorem blames_mutation (container : Node) {spanOf : Culprit → Span}
    (points : ∀ culprit, (spanOf culprit).PointsInto source)
    (change : Heap → Except OperationFault Heap) :
    Blames source (do
      setHeap (← locate spanOf (change (← heap)))
      notifyMutation surroundings container) :=
  blames_heap.bind fun heap => (blames_locate points (change heap)).bind fun changed =>
    (blames_setHeap changed).bind fun _ => blames_notifyMutation container

mutual

theorem blames_eval : ∀ node : Node, node.Sited source → Blames source (eval surroundings node)
  | .literal _ value, _ => by
    rw [eval]
    exact (blames_pure _).remember
  | .identifier span name, points => by
    rw [eval]
    exact (blames_lookup points name).remember
  | .unary _ operator operatorSpan operand, ⟨_, own, sited⟩ => by
    rw [eval]
    refine ((blames_eval operand sited).bind fun value => blames_locate (fun culprit => ?_) _).remember
    split
    · exact own
    · exact sited.span
  | .binary _ operator operatorSpan left right, ⟨_, own, first, second⟩ => by
    rw [eval]
    refine ((blames_eval left first).bind fun _ => (blames_eval right second).bind fun _ => ?_).remember
    refine blames_heap.bind fun heap => (blames_locate (fun culprit => ?_) _).bind blames_realize
    split
    · exact own
    · exact first.span
    · exact second.span
  | .call span callee nodes, ⟨points, called, given⟩ => by
    rw [eval]
    refine ((blames_eval callee called).bind fun function =>
      (blames_evalAll nodes given).bind fun arguments => ?_).remember
    exact blames_apply points called.span (fun node inside =>
      (Node.areSited_iff.1 given node inside).span) function arguments
  | .element span target index, ⟨points, container, position⟩ => by
    rw [eval]
    refine ((blames_eval target container).bind fun _ =>
      (blames_eval index position).bind fun _ => ?_).remember
    exact blames_heap.bind fun heap => blames_locate (points_elementSpan points container position) _
  | .slice span target start stop, ⟨points, container, first, last⟩ => by
    rw [eval]
    refine ((blames_eval target container).bind fun _ => (blames_eval start first).bind fun _ =>
      (blames_eval stop last).bind fun _ => ?_).remember
    exact blames_heap.bind fun heap =>
      (blames_locate (points_sliceSpan points container first last) _).bind blames_realize
  | .array _ nodes, ⟨_, items⟩ => by
    rw [eval]
    exact ((blames_evalAll nodes items).bind fun _ => blames_realize _).remember
  | .assignment .., sited | .choice .., sited | .loop .., sited | .definition .., sited
  | .result .., sited | .pass _, sited | .deletion .., sited => by
    rw [eval]
    exact (blames_fail sited.span).remember

theorem blames_evalAll : ∀ nodes : List Node, Node.AreSited source nodes →
    Blames source (evalAll surroundings nodes)
  | [], _ => by
    rw [evalAll]
    exact blames_pure _
  | node :: nodes, ⟨sited, others⟩ => by
    rw [evalAll]
    exact (blames_eval node sited).bind fun _ =>
      (blames_evalAll nodes others).bind fun _ => blames_pure _

end

theorem blames_condition {node : Node} (sited : node.Sited source) :
    Blames source (condition surroundings node) := by
  refine (blames_eval node sited).bind fun value => ?_
  split
  · exact blames_pure _
  · exact blames_fail sited.span

theorem blames_firstBranch {branches : List Branch} (sited : Branch.AreSited source branches) :
    Blames source (firstBranch surroundings branches) := by
  induction branches with
  | nil => exact blames_pure _
  | cons branch others ih =>
    obtain ⟨asked, body⟩ := branch
    refine (blames_condition sited.1.1).bind fun truth => ?_
    cases truth with
    | true => exact blames_pure _
    | false => exact ih sited.2

theorem blames_assignTo {target valueNode : Node} (there : target.Sited source)
    (assigned : valueNode.Sited source) : Blames source (assignTo surroundings target valueNode) := by
  refine (blames_eval valueNode assigned).bind fun value => ?_
  cases target with
  | identifier _ name => exact (blames_assign _ name value).bind fun _ => blames_notifyAssign _ value
  | element span container index =>
    obtain ⟨points, root, position⟩ := there
    refine (blames_eval container root).bind fun _ => (blames_eval index position).bind fun _ => ?_
    exact blames_mutation container (points_elementSpan points root position) _
  | slice span container start stop =>
    obtain ⟨points, root, first, last⟩ := there
    refine (blames_eval container root).bind fun _ => (blames_eval start first).bind fun _ =>
      (blames_eval stop last).bind fun _ => ?_
    refine blames_mutation container (fun culprit => ?_) _
    split
    · exact assigned.span
    · exact points_sliceSpan points root first last culprit
  | literal | unary | binary | call | array | assignment | choice | loop | definition | result
  | pass | deletion => exact blames_fail there.span

theorem blames_delete {target : Node} (there : target.Sited source) :
    Blames source (delete surroundings target) := by
  cases target with
  | element span container index =>
    obtain ⟨points, root, position⟩ := there
    refine (blames_eval container root).bind fun _ => (blames_eval index position).bind fun _ => ?_
    exact blames_mutation container (points_elementSpan points root position) _
  | slice span container start stop =>
    obtain ⟨points, root, first, last⟩ := there
    refine (blames_eval container root).bind fun _ => (blames_eval start first).bind fun _ =>
      (blames_eval stop last).bind fun _ => ?_
    exact blames_mutation container (points_sliceSpan points root first last) _
  | literal | identifier | unary | binary | call | array | assignment | choice | loop | definition
  | result | pass | deletion => exact blames_fail there.span

theorem blames_exec {node : Node} (sited : node.Sited source) :
    Blames source (exec surroundings node) := by
  cases node with
  | assignment _ target value =>
    exact (blames_assignTo sited.2.1 sited.2.2).bind fun _ => blames_pure _
  | choice _ first body others otherwise =>
    obtain ⟨-, asked, inside, further, -⟩ := sited
    have branches : Branch.AreSited source (.of first body :: others) := ⟨⟨asked, inside⟩, further⟩
    refine (blames_firstBranch branches).bind fun chosen => ?_
    split
    · exact blames_pure _
    · split <;> exact blames_pure _
  | loop _ header body =>
    refine (blames_condition sited.2.1).bind fun truth => ?_
    split <;> exact blames_pure _
  | definition _ name parameters body =>
    refine Blames.bind ?_ fun _ => blames_pure _
    exact blames_get.bind fun _ => (blames_modify _).bind fun _ =>
      (blames_assign _ name _).bind fun _ => blames_notifyAssign _ _
  | result _ value =>
    cases value with
    | none => exact blames_pure _
    | some value => exact (blames_eval value sited.2).bind fun _ => blames_pure _
  | pass => exact blames_pure _
  | deletion _ target => exact (blames_delete sited.2).bind fun _ => blames_pure _
  | literal | identifier | unary | binary | call | element | slice | array =>
    exact (blames_eval _ sited).bind fun _ => blames_pure _

end Evaluation

end TabScript
