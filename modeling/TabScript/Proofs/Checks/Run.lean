import TabScript.Proofs.Checks.Evaluated
import TabScript.Proofs.Checks.Parsed
import TabScript.Proofs.Stack.Kept
import TabScript.Proofs.Stack.Reached

/-! Runs of checked programs fail for dynamic reasons only.

What the stack still has to do is made of proper statements, and all values in reach name what is there.
Every step keeps this. -/

set_option autoImplicit false

namespace TabScript

variable {σ : Type} {checked : Prop} {count larger : Nat}

theorem Continuation.Lawful.mono {continuation : Continuation}
    (lawful : continuation.Lawful checked count) (grows : count ≤ larger) :
    continuation.Lawful checked larger := by
  cases continuation with
  | entering closure arguments =>
    exact ⟨lawful.proper, fun argument inside => (lawful.given argument inside).mono grows⟩
  | running activity =>
    exact ⟨lawful.work, lawful.sequel, fun slot done present =>
      (lawful.replay slot done present).mono grows⟩

theorem Continuation.Lawful.deliver {continuation : Continuation}
    (lawful : continuation.Lawful checked count) {value : Value} (known : value.Lawful checked count) :
    (continuation.deliver value).Lawful checked count := by
  cases continuation with
  | entering closure arguments => exact lawful
  | running activity => exact ⟨lawful.work, lawful.sequel, lawful.replay.deliver known⟩

namespace Activity

variable {activity : Activity}

theorem Lawful.proper (lawful : activity.Lawful checked count) {node : Node}
    (current : activity.current? = some node) (holds : checked) : node.IsProper := by
  have work := lawful.work holds
  obtain ⟨todo, scope, sequel, replay⟩ := activity
  cases todo with
  | statements remaining =>
    exact Node.areProper_iff.1 work node (List.mem_of_mem_head? current)
  | header loop =>
    cases current
    exact work

theorem Lawful.next? (lawful : activity.Lawful checked count) {left : Activity}
    (remains : activity.next? = some left) : left.Lawful checked count := by
  obtain ⟨remaining, work, rfl⟩ := next?_eq_some remains
  refine ⟨fun holds => ?_, lawful.sequel, Replay.all_fresh⟩
  have proper := lawful.work holds
  rw [work] at proper
  exact Node.areProper_iff.2 fun node inside =>
    Node.areProper_iff.1 proper node (List.mem_of_mem_tail inside)

end Activity

def Stack.Lawful (checked : Prop) (count : Nat) (stack : Stack) : Prop :=
  ∀ continuation ∈ stack, continuation.Lawful checked count

namespace Stack

variable {stack rest : Stack}

theorem Lawful.mono (lawful : Lawful checked count stack) (grows : count ≤ larger) :
    Lawful checked larger stack := fun continuation inside =>
  (lawful continuation inside).mono grows

theorem Lawful.proceed {waiting : Activity} (lawful : waiting.Lawful checked count)
    (others : Lawful checked count rest) {ended : Except Interrupt Flow}
    (flow : ∀ flow, ended = .ok flow → flow.Lawful checked count)
    (call : ∀ closure arguments, ended = .error (.suspend closure arguments) →
      closure.Callable checked count arguments)
    (goes : Stack.proceed waiting rest ended = some stack) : Lawful checked count stack :=
  forall_proceed lawful others (fun _ => lawful.next?) (fun _ entered => flow _ entered)
    (fun _ left _ below => below.deliver (flow _ left)) call goes

end Stack

structure Settled.Lawful (checked : Prop) (before : Memory) (settled : Settled) : Prop where
  memory : settled.memory.Lawful checked
  heap : settled.memory.heap = before.heap
  next {activity : Activity} {node : Node} {rest : Stack} :
    settled.next = some (activity, node, rest) →
      activity.Lawful checked before.size ∧ (checked → node.IsProper) ∧
        Stack.Lawful checked before.size rest

theorem Memory.Lawful.settle {memory : Memory} (lawful : memory.Lawful checked) {stack : Stack}
    (todo : Stack.Lawful checked memory.size stack) :
    (memory.settleWith Memory.release stack).Lawful checked memory := by
  obtain ⟨⟨good, heap⟩, todo'⟩ := Memory.settleWith_keeps
    (fun later => later.Lawful checked ∧ later.heap = memory.heap)
    (fun continuation => continuation.Lawful checked memory.size)
    (fun later closure arguments good call => by
      -- entering a call makes no arrays, so what the stack names is still there
      have same : (later.enter closure arguments).2.heap = memory.heap :=
        (later.heap_enter closure arguments).trans good.2
      have size : later.size = memory.size := congrArg (fun heap => heap.arrays.size) good.2
      exact ⟨⟨good.1.enter (size ▸ call.given), same⟩, call.proper, fun _ => trivial, Replay.all_fresh⟩)
    (fun activity loop sequel top => by
      have again : checked → loop.IsProper := fun holds => by
        have kept := top.sequel holds
        rw [sequel] at kept
        exact kept
      exact ⟨again, fun _ => trivial, Replay.all_fresh⟩)
    (fun later callee left good => ⟨good.1.release callee left, (later.heap_release callee left).trans good.2⟩)
    (fun continuation below => below.deliver trivial) ⟨lawful, rfl⟩ todo
  refine ⟨good, heap, fun {activity node rest} next => ?_⟩
  have current := Memory.settleWith_current Memory.release memory stack next
  rw [Settled.stack, next, List.forall_mem_cons] at todo'
  exact ⟨todo'.1, todo'.1.proper current, todo'.2⟩

namespace Memory

theorem lawful_initial (checked : Prop) : Memory.initial.Lawful checked :=
  ⟨(Memory.all_initial _).heap, (Memory.all_initial _).scopes⟩

theorem Lawful.install {memory : Memory} (lawful : memory.Lawful checked) (name : String)
    (native : Native) : (memory.install name native).Lawful checked :=
  ⟨lawful.heap, lawful.scopes.assign Arena.global name trivial⟩

end Memory

theorem Memory.Lawful.vacate {memory : Memory} (lawful : memory.Lawful checked) (stack : Stack)
    (ended : Except Interrupt Flow) :
    (Stack.vacate Memory.release memory stack ended).Lawful checked ∧
      (Stack.vacate Memory.release memory stack ended).heap = memory.heap := by
  rcases Stack.vacate_cases Memory.release memory stack ended with same | ⟨callee, left, same⟩
  · rw [same]
    exact ⟨lawful, rfl⟩
  · rw [same]
    exact ⟨lawful.release callee left, memory.heap_release callee left⟩

namespace Machine

structure Lawful (checked : Prop) (machine : Machine σ) : Prop where
  memory : machine.memory.Lawful checked
  stack : Stack.Lawful checked machine.memory.size machine.stack

variable {machine : Machine σ}

theorem Lawful.settled (lawful : machine.Lawful checked) :
    machine.settled.Lawful checked machine.memory :=
  lawful.memory.settle lawful.stack

/-- The next statement ends in a lawful state, however it ends. -/
theorem Lawful.attempt (lawful : machine.Lawful checked) {activity : Activity} {node : Node}
    {rest : Stack} (next : machine.settled.next = some (activity, node, rest)) :
    Evaluation.Lands checked machine.memory.size (Flow.Lawful checked)
      (machine.attempt machine.settled.memory activity node) := by
  obtain ⟨memory, heap, comes⟩ := lawful.settled
  obtain ⟨top, proper, -⟩ := comes next
  have size : machine.settled.memory.size = machine.memory.size :=
    congrArg (fun heap => heap.arrays.size) heap
  exact Evaluation.lawful_exec node proper _
    ⟨memory, fun slot done present => size ▸ top.replay slot done present, Nat.le_of_eq size.symm⟩

theorem Lawful.step (lawful : machine.Lawful checked) : machine.step.machine.Lawful checked := by
  obtain ⟨memory, stack⟩ := step_keeps
    (fun memory stack => memory.Lawful checked ∧ Stack.Lawful checked memory.size stack)
    ⟨lawful.memory, lawful.stack⟩ (fun _ => ⟨lawful.settled.memory.collect [], nofun⟩)
    fun activity node rest next => by
      have lands := lawful.attempt next
      obtain ⟨top, -, others⟩ := lawful.settled.next next
      generalize machine.attempt machine.settled.memory activity node = reached at lands ⊢
      have state := lands.state
      refine ⟨⟨state.memory, nofun⟩, fun stack goes => ?_⟩
      have waiting : Activity.Lawful checked reached.2.memory.size
          { activity with replay := reached.2.replay } := ⟨top.work, top.sequel, state.replay⟩
      -- the statement may have made arrays, and the stack below it is lawful for more of them too
      have todo := Stack.Lawful.proceed waiting (others.mono state.grown) (fun _ => lands.value)
        (fun _ _ => lands.call) goes
      have left := state.memory.vacate (.running { activity with replay := reached.2.replay } :: rest)
        reached.1
      have size := congrArg (fun heap => heap.arrays.size) left.2
      exact ⟨left.1, todo.mono (Nat.le_of_eq size.symm)⟩
  exact ⟨memory, stack⟩

theorem lawful_ofProgram {program : Block} {globals : Globals σ} {host : σ}
    (ready : ofProgram program globals host = .ok machine)
    (proper : checked → Node.AreProper program.statements) : machine.Lawful checked := by
  refine ⟨ofProgram_keeps (fun memory => memory.Lawful checked)
    (fun memory name native lawful => lawful.install name native)
    (fun memory json value heap name lawful made => ?_) (Memory.lawful_initial checked) ready, ?_⟩
  · obtain ⟨good, known, -⟩ := (Heap.lawful_makes checked memory.size).ofJson
      ⟨lawful.heap, Nat.le_refl _⟩ made
    exact ⟨good.1, (lawful.scopes.mono good.2).assign _ name known⟩
  · rw [(begins_of_ofProgram ready).1]
    exact List.forall_mem_singleton.2 ⟨proper, fun _ => trivial, Replay.all_fresh⟩

/-- Whatever happens in a run, the memory names what is there and the stack leads to proper
statements. -/
theorem Reached.lawful {program : Block} {calls : List Call} (reached : Reached program machine calls)
    (proper : checked → Node.AreProper program.statements) : machine.Lawful checked := by
  obtain ⟨memory, stack⟩ := reached.keeps
    (fun memory stack => memory.Lawful checked ∧ Stack.Lawful checked memory.size stack)
    (fun start globals host ready =>
      have begun : start.Lawful checked := lawful_ofProgram ready proper
      ⟨begun.memory, begun.stack⟩)
    (fun before good =>
      have stepped : before.step.machine.Lawful checked := Lawful.step ⟨good.1, good.2⟩
      ⟨stepped.memory, stepped.stack⟩)
  exact ⟨memory, stack⟩

def ReturnsOutside (machine : Machine σ) (calls : List Call) : Prop :=
  machine.settled.passages.foldl Passage.follow calls = [] ∧
    ∃ activity span operand rest value,
      machine.settled.next = some (activity, .result span operand, rest) ∧
        (machine.attempt machine.settled.memory activity (.result span operand)).1 =
          .ok (.leave value)

end Machine

theorem Evaluation.exec_leave {surroundings : Surroundings σ} {node : Node}
    {before after : Progress σ} {value : Value}
    (left : exec surroundings node before = (.ok (.leave value), after)) :
    ∃ span operand, node = .result span operand := by
  cases node with
  | result span operand => exact ⟨span, operand, rfl⟩
  | choice span first body others otherwise =>
    obtain ⟨chosen, middle, -, rest⟩ := bind_ok left
    cases chosen with
    | some block => cases rest
    | none => cases otherwise <;> cases rest
  | loop span header body =>
    obtain ⟨truth, middle, -, rest⟩ := bind_ok left
    cases truth <;> cases rest
  | pass => cases left
  | assignment | definition | deletion | literal | identifier | unary | binary | call | element
  | slice | array =>
    obtain ⟨_, _, -, rest⟩ := bind_ok left
    cases rest

namespace Machine

variable {machine : Machine σ}

theorem running_of_fails {fault : Fault} (fails : machine.step.result = .error fault) :
    machine.status = .running := by
  by_cases running : machine.status = .running
  · exact running
  · simp only [step, running, if_false] at fails
    cases fails

theorem step_fails (running : machine.status = .running) {fault : Fault}
    (fails : machine.step.result = .error fault) :
    ∃ activity node rest, machine.settled.next = some (activity, node, rest) ∧
      ((machine.attempt machine.settled.memory activity node).1 = .error (.fail fault) ∨
        fault = ⟨.returnOutsideFunction, node.span⟩ ∧
          ∃ value, (machine.attempt machine.settled.memory activity node).1 = .ok (.leave value)) := by
  cases next : machine.settled.next with
  | none =>
    rw [step_eq running, next] at fails
    cases fails
  | some upcoming =>
    obtain ⟨activity, node, rest⟩ := upcoming
    refine ⟨activity, node, rest, rfl, ?_⟩
    rw [step_of_next running next] at fails
    generalize machine.attempt machine.settled.memory activity node = reached at fails ⊢
    obtain ⟨(other | ⟨closure, arguments⟩) | (_ | inner | value), after⟩ := reached
    case error.fail =>
      cases fails
      exact .inl rfl
    -- the statement itself has not failed, but its value may find nobody to take it
    case ok.leave =>
      cases goes : Stack.proceed { activity with replay := after.replay } rest (.ok (.leave value)) with
      | some stack =>
        simp only [goes] at fails
        cases fails
      | none =>
        simp only [goes] at fails
        cases fails
        exact .inr ⟨rfl, value, rfl⟩
    all_goals cases fails

theorem Reached.fails_outside {program : Block} {calls : List Call}
    (reached : Reached program machine calls) (running : machine.status = .running)
    (outside : machine.ReturnsOutside calls) :
    ∃ span, machine.step.result = .error ⟨.returnOutsideFunction, span⟩ := by
  obtain ⟨segments, stacked, named, shape⟩ := reached.shape running
  obtain ⟨later, passes, ready⟩ := settles shape stacked
  obtain ⟨spent, activity, span, operand, rest, value, next, leaves⟩ := outside
  have alone : later.filterMap Segment.call? = [] := by rw [passes.calls, named, spent]
  rw [next] at ready
  cases ready with
  | @statement owner scope _ _ below lower current shape' =>
    -- without a call the statement is one of the program, and below it nothing can take a value
    cases shape' with
    | active => cases alone
    | program stand wait =>
      have stuck : ∀ replay : Replay,
          Stack.proceed { activity with replay := replay }
            (below.map Continuation.running ++ Stack.join []) (.ok (.leave value)) = none := by
        intro replay
        have alike : Stack.unwind (.running { activity with replay := replay } ::
            below.map Continuation.running) = none := Segment.unwind_of_program stand
        rw [Stack.proceed, Stack.join, List.flatMap_nil, List.append_nil, alike]
        rfl
      refine ⟨span, ?_⟩
      simp only [step_of_next running next, leaves, stuck]
      rfl

theorem Reached.illegal_iff {program : Block} {calls : List Call}
    (reached : Reached program machine calls) (proper : Node.AreProper program.statements) :
    (∃ fault, machine.step.result = .error fault ∧ fault.cause.kind = .illegalStatement) ↔
      machine.status = .running ∧ machine.ReturnsOutside calls := by
  constructor
  · rintro ⟨fault, fails, illegal⟩
    have running := running_of_fails fails
    refine ⟨running, ?_⟩
    obtain ⟨activity, node, rest, next, ended⟩ := step_fails running fails
    have lands := (reached.lawful fun _ : True => proper).attempt next
    rcases ended with ended | ⟨-, value, leaves⟩
    · exact absurd illegal (lands.fault ended trivial).2
    · obtain ⟨span, operand, rfl⟩ := Evaluation.exec_leave (Prod.ext leaves rfl)
      refine ⟨?_, activity, span, operand, rest, value, next, leaves⟩
      -- a return fails only where the program's own segment is the last one
      obtain ⟨segments, stacked, named, shape⟩ := reached.shape running
      have goes := advances shape stacked running
      rw [Advances, fails] at goes
      have flow : machine.flow? = some (.ok (.leave value)) := by
        simp only [flow?, next, Option.map_some, leaves]
      rcases goes.2 with failed | ⟨_, _, _, _, -, -, passes⟩
      · rw [flow] at failed
        cases failed
      · rw [← named, ← passes.calls]
        rfl
  · rintro ⟨running, outside⟩
    obtain ⟨span, fails⟩ := reached.fails_outside running outside
    exact ⟨_, fails, rfl⟩

end Machine

/-- What is parsed has expressions for operands, targets that fit, blocks with statements and parameters
with different names. So no step of a run fails for the shape of the tree, or in a way that is the
parser's; and what is illegal is only to return where no call is active. -/
theorem parse_checked {source : String} {program : Block} (read : parse source = .ok program) :
    Node.AreProper program.statements ∧
      ∀ (machine : Machine σ) (calls : List Call), machine.Reached program calls →
        (∀ fault, machine.step.result = .error fault →
          fault.cause ≠ .statementAsValue ∧ fault.cause ≠ .unassignableTarget ∧
            fault.cause ≠ .undeletableTarget ∧ fault.cause.kind.isCompileTime = false) ∧
        ((∃ fault, machine.step.result = .error fault ∧ fault.cause.kind = .illegalStatement) ↔
          machine.status = .running ∧ machine.ReturnsOutside calls) := by
  have proper := areProper_parse read
  refine ⟨proper, fun machine calls reached => ⟨fun fault fails => ?_, reached.illegal_iff proper⟩⟩
  have running := Machine.running_of_fails fails
  obtain ⟨activity, node, rest, next, ended⟩ := Machine.step_fails running fails
  rcases ended with ended | ⟨rfl, -⟩
  · have lands := (reached.lawful fun _ : True => proper).attempt next
    obtain ⟨dynamic, legal⟩ := lands.fault ended trivial
    refine ⟨?_, ?_, ?_, dynamic⟩
    all_goals
      intro same
      rw [same] at legal
      exact legal rfl
  · exact ⟨by simp, by simp, by simp, rfl⟩

def Machine.problem? (machine : Machine σ) : Option ProblemKind :=
  match machine.step.result with
  | .ok _ => none
  | .error fault => some fault.cause.kind

theorem Machine.fails_of_problem? {machine : Machine σ} {kind : ProblemKind}
    (found : machine.problem? = some kind) :
    ∃ fault, machine.step.result = .error fault ∧ fault.cause.kind = kind := by
  unfold problem? at found
  split at found
  · cases found
  · rename_i fault result
    exact ⟨fault, result, Option.some.inj found⟩

/-- A program that returns from nowhere is read, and its only step is illegal. -/
theorem parse_checked_returning :
    ∃ (program : Block) (machine : Machine Unit), parse "return True" = .ok program ∧
      Machine.ofProgram program [] () = .ok machine ∧ Node.AreProper program.statements ∧
      machine.ReturnsOutside [] := by
  have fails : ((parse "return True").toOption.bind fun program =>
      (Machine.ofProgram program ([] : Globals Unit) ()).toOption.bind Machine.problem?) =
        some .illegalStatement := by decide +kernel
  obtain ⟨program, parsed, made⟩ := Option.bind_eq_some_iff.1 fails
  obtain ⟨machine, ready, illegal⟩ := Option.bind_eq_some_iff.1 made
  have parsed := except_of_toOption parsed
  have ready := except_of_toOption ready
  obtain ⟨proper, runs⟩ := parse_checked parsed
  refine ⟨program, machine, parsed, ready, proper, ?_⟩
  obtain ⟨-, legal⟩ := runs machine [] (.start ready)
  exact (legal.1 (Machine.fails_of_problem? illegal)).2

end TabScript
