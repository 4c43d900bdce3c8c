import TabScript.Proofs.Provenance.Evaluated
import TabScript.Proofs.Stack.Kept
import TabScript.Proofs.Stack.Reached

/-! Whatever runs is a part of the program.

What all statements of a program have, and what every statement passes on to those in its blocks and in the
body of the function that it defines, all statements that are ever run have. -/

set_option autoImplicit false

namespace TabScript

variable {σ : Type}

def Node.bodies : Node → List Block
  | .definition _ _ _ body => [body]
  | node => node.blocks

def Node.Descends (holds : Node → Prop) : Prop :=
  ∀ node, holds node → ∀ body ∈ node.bodies, ∀ inner ∈ body.statements, holds inner

theorem Node.bodies_of_blocks {node : Node} {block : Block} (inside : block ∈ node.blocks) :
    block ∈ node.bodies := by
  cases node with
  | definition => cases inside
  | _ => exact inside

/-- A function of the program does what the property is said of. -/
def Value.Follows (holds : Node → Prop) : Value → Prop
  | .function (.closure made) => ∀ node ∈ made.body, holds node
  | _ => True

theorem Value.common_follows (holds : Node → Prop) : Value.Common (Value.Follows holds) where
  none := trivial
  boolean _ := trivial
  number _ := trivial
  text _ := trivial
  array _ := trivial
  builtin _ := trivial

def Activity.statements (activity : Activity) : List Node :=
  (match activity.work with
    | .statements remaining => remaining
    | .header loop => [loop]) ++
    match activity.sequel with
    | .recheck loop => [loop]
    | .nothing | .return => []

variable {holds : Node → Prop}

structure Activity.Follows (holds : Node → Prop) (activity : Activity) : Prop where
  statements : ∀ node ∈ activity.statements, holds node
  replay : activity.replay.All (Value.Follows holds)

def Continuation.Follows (holds : Node → Prop) : Continuation → Prop
  | .entering closure arguments =>
    (∀ node ∈ closure.body, holds node) ∧ ∀ argument ∈ arguments, argument.Follows holds
  | .running activity => activity.Follows holds

def Stack.Follows (holds : Node → Prop) (stack : Stack) : Prop :=
  ∀ continuation ∈ stack, continuation.Follows holds

namespace Activity

variable {activity : Activity}

theorem follows_fresh (statements : ∀ node ∈ activity.statements, holds node)
    (fresh : activity.replay = .fresh) : activity.Follows holds :=
  ⟨statements, fresh ▸ Replay.all_fresh⟩

theorem Follows.current (follows : activity.Follows holds) {node : Node}
    (current : activity.current? = some node) : holds node := by
  obtain ⟨work, scope, sequel, replay⟩ := activity
  refine follows.statements node (List.mem_append_left _ ?_)
  cases work with
  | statements remaining => exact List.mem_of_mem_head? current
  | header loop =>
    cases current
    exact List.mem_cons_self

theorem Follows.next? (follows : activity.Follows holds) {left : Activity}
    (remains : activity.next? = some left) : left.Follows holds := by
  obtain ⟨remaining, work, rfl⟩ := next?_eq_some remains
  refine follows_fresh (fun node inside => follows.statements node ?_) rfl
  rw [Activity.statements, work]
  rcases List.mem_append.1 inside with later | sequel
  · exact List.mem_append_left _ (List.mem_of_mem_tail later)
  · exact List.mem_append_right _ sequel

end Activity

theorem Continuation.Follows.deliver {continuation : Continuation} (follows : continuation.Follows holds)
    {value : Value} (known : value.Follows holds) : (continuation.deliver value).Follows holds := by
  cases continuation with
  | entering closure arguments => exact follows
  | running activity => exact ⟨follows.statements, follows.replay.deliver known⟩

theorem Stack.Follows.proceed {stack rest : Stack} {waiting : Activity} (first : waiting.Follows holds)
    (others : Follows holds rest) {ended : Except Interrupt Flow}
    (enters : ∀ inner, ended = .ok (.enter inner) → inner.Follows holds)
    (leaves : ∀ value, ended = .ok (.leave value) → value.Follows holds)
    (calls : ∀ closure arguments, ended = .error (.suspend closure arguments) →
      (Continuation.entering closure arguments).Follows holds)
    (goes : Stack.proceed waiting rest ended = some stack) : Follows holds stack :=
  forall_proceed first others (fun _ => first.next?) enters
    (fun _ left _ below => below.deliver (leaves _ left)) calls goes

structure Settled.Follows (holds : Node → Prop) (settled : Settled) : Prop where
  memory : settled.memory.All (Value.Follows holds)
  next {activity : Activity} {node : Node} {rest : Stack} :
    settled.next = some (activity, node, rest) →
      activity.Follows holds ∧ holds node ∧ Stack.Follows holds rest

theorem Memory.follows_settle {memory : Memory} (all : memory.All (Value.Follows holds)) {stack : Stack}
    (todo : Stack.Follows holds stack) :
    (memory.settleWith Memory.release stack).Follows holds := by
  obtain ⟨good, todo'⟩ := Memory.settleWith_keeps (fun later => later.All (Value.Follows holds))
    (fun continuation => continuation.Follows holds)
    (fun later closure arguments good call => ⟨good.enter call.2,
      Activity.follows_fresh (by simpa [Activity.statements, Activity.body] using call.1) rfl⟩)
    (fun activity loop sequel top => by
      have again : holds loop := top.statements loop (by simp [Activity.statements, sequel])
      exact Activity.follows_fresh (by simpa [Activity.statements, Activity.header] using again) rfl)
    (fun later callee left good => good.release callee left)
    (fun continuation below => below.deliver trivial) all todo
  refine ⟨good, fun {activity node rest} next => ?_⟩
  have current := Memory.settleWith_current Memory.release memory stack next
  rw [Settled.stack, next, List.forall_mem_cons] at todo'
  exact ⟨todo'.1, todo'.1.current current, todo'.2⟩

namespace Machine

structure Follows (holds : Node → Prop) (machine : Machine σ) : Prop where
  memory : machine.memory.All (Value.Follows holds)
  stack : Stack.Follows holds machine.stack

variable {machine : Machine σ}

theorem Follows.settled (follows : machine.Follows holds) : machine.settled.Follows holds :=
  Memory.follows_settle follows.memory follows.stack

section
variable (follows : machine.Follows holds) (descends : Node.Descends holds) {activity : Activity} {node : Node}
  {rest : Stack} (next : machine.settled.next = some (activity, node, rest))
include follows descends next

/-- A statement makes functions of what stands in it, and returns and calls what was there. -/
theorem Follows.attempt : Evaluation.Leaves (Value.Follows holds)
    (fun flow => ∀ value, flow = .leave value → value.Follows holds)
    (machine.attempt machine.settled.memory activity node) := by
  obtain ⟨top, here, -⟩ := follows.settled.next next
  refine Evaluation.preserves_exec (Value.common_follows holds) node ?_
    ⟨machine.settled.memory, activity.replay.rewind, machine.host, [], []⟩
    ⟨follows.settled.memory, top.replay⟩
  rintro span name parameters body rfl closure made
  change ∀ inner ∈ closure.body, holds inner
  rw [made]
  exact descends _ here body List.mem_cons_self

theorem Follows.enters (inner : Activity)
    (entered : (machine.attempt machine.settled.memory activity node).1 = .ok (.enter inner)) :
    inner.Follows holds := by
  obtain ⟨-, here, -⟩ := follows.settled.next next
  obtain ⟨block, among, rfl | rfl⟩ := Evaluation.exec_enter_block (Prod.ext entered rfl)
  all_goals
    have parts := descends node here block (Node.bodies_of_blocks among)
    refine Activity.follows_fresh ?_ rfl
  · simpa [Activity.statements, Activity.block] using parts
  · simpa [Activity.statements, Activity.round, or_imp, forall_and] using ⟨parts, here⟩

end

theorem Follows.step (follows : machine.Follows holds) (descends : Node.Descends holds) :
    machine.step.machine.Follows holds := by
  obtain ⟨memory, stack⟩ := step_keeps
    (fun memory stack => memory.All (Value.Follows holds) ∧ Stack.Follows holds stack)
    ⟨follows.memory, follows.stack⟩ (fun _ => ⟨follows.settled.memory.collect [], nofun⟩)
    fun activity node rest next => by
      obtain ⟨top, here, others⟩ := follows.settled.next next
      have leaves := follows.attempt descends next
      have enters := follows.enters descends next
      generalize machine.attempt machine.settled.memory activity node = reached at leaves enters ⊢
      have state := leaves.state
      refine ⟨⟨state.memory, nofun⟩, fun stack goes => ⟨state.memory.vacate _ _, ?_⟩⟩
      have waiting : Activity.Follows holds { activity with replay := reached.2.replay } :=
        ⟨top.statements, state.replay⟩
      exact Stack.Follows.proceed waiting others enters (fun value left => leaves.value left value rfl)
        (fun _ _ asked => leaves.call asked) goes
  exact ⟨memory, stack⟩

theorem follows_ofProgram {program : Block} {globals : Globals σ} {host : σ}
    (ready : ofProgram program globals host = .ok machine)
    (all : ∀ node ∈ program.statements, holds node) : machine.Follows holds := by
  have common := Value.common_follows holds
  refine ⟨ofProgram_keeps (fun memory => memory.All (Value.Follows holds))
    (fun memory name native good => good.install common name native)
    (fun memory json value heap name good made => ?_) (Memory.all_initial _) ready, ?_⟩
  · obtain ⟨heap, known, -⟩ := (Heap.all_makes common).ofJson good.heap made
    exact ⟨heap, good.scopes.assign _ name known⟩
  · rw [(begins_of_ofProgram ready).1]
    refine List.forall_mem_singleton.2 (Activity.follows_fresh ?_ rfl)
    simpa [Activity.statements, Activity.block] using all

/-- Whatever happens in a run, it goes on with parts of the program. -/
theorem Reached.follows {program : Block} {calls : List Call} (reached : Reached program machine calls)
    (descends : Node.Descends holds) (all : ∀ node ∈ program.statements, holds node) :
    machine.Follows holds := by
  obtain ⟨memory, stack⟩ := reached.keeps
    (fun memory stack => memory.All (Value.Follows holds) ∧ Stack.Follows holds stack)
    (fun start globals host ready =>
      have begun : start.Follows holds := follows_ofProgram ready all
      ⟨begun.memory, begun.stack⟩)
    (fun before good =>
      have stepped : before.step.machine.Follows holds := Follows.step ⟨good.1, good.2⟩ descends
      ⟨stepped.memory, stepped.stack⟩)
  exact ⟨memory, stack⟩

end Machine

end TabScript
