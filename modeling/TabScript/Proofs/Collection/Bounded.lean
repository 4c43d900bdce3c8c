import TabScript.Proofs.Collection.Tally

/-! How many scopes wait to be collected.

Besides the scopes that the last collection left, there is at most one for every captured scope that was
left since and one for every call that is active. The count of the former starts a collection before it
gets large, and when a program has come to its end nothing is left but what the global scope leads to. -/

set_option autoImplicit false

namespace TabScript

variable {σ : Type}

def Continuation.isBody : Continuation → Bool
  | entering .. => false
  | running activity =>
    match activity.sequel with
    | .return => true
    | _ => false

/-- How many calls were entered and have not returned. -/
def Stack.bodies (stack : Stack) : Nat := stack.countP Continuation.isBody

namespace Memory

/-- Leaves the scope of a call that returned and does not look for others. -/
def leave (memory : Memory) (scope : ScopeId) (_ : Stack) : Memory :=
  ⟨memory.heap, (memory.scopes.release scope).2⟩

/-- The memory after the collection that the return of a call started. It is known from what would have been
left without it: too many scopes that had to stay. -/
def collected (left after : Memory) (passages : List Passage) : List Memory :=
  if passages.any Passage.isReturn && left.scopes.wantsCollection then [after] else []

def collectedBefore (memory : Memory) (stack : Stack) : List Memory :=
  collected (memory.settleWith leave stack).memory (memory.settleWith release stack).memory
    (memory.settleWith release stack).passages

/-- How many scopes survived the last of some collections. Before the first one there was only the global
scope. -/
def survivors (memories : List Memory) : Nat :=
  (memories.getLast?.map fun memory => memory.scopes.live).getD 1

end Memory

def Stack.collectedAfter (memory : Memory) (stack : Stack) (flow : Except Interrupt Flow) : List Memory :=
  Memory.collected (vacate Memory.leave memory stack flow) (vacate Memory.release memory stack flow)
    (Passage.ofFlow flow)

namespace Machine

/-- The memories after the collections of a step. The end of the program starts one, too. -/
def collections (machine : Machine σ) : List Memory :=
  machine.memory.collectedBefore machine.stack ++
    match machine.settled.next with
    | none => [machine.settled.memory.collect []]
    | some (activity, node, rest) =>
      let reached := machine.attempt machine.settled.memory activity node
      Stack.collectedAfter reached.2.memory
        (.running { activity with replay := reached.2.replay } :: rest) reached.1

/-- The states that a program can come to, with the memories after all collections so far. -/
inductive Collected (program : Block) : Machine σ → List Memory → Prop where
  | start {globals : Globals σ} {host : σ} {machine : Machine σ}
    (ready : ofProgram program globals host = .ok machine) : Collected program machine []
  | step {machine : Machine σ} {collected : List Memory} (limit : Option Nat)
    (running : machine.status = .running) (within : machine.exceeds limit = false)
    (before : Collected program machine collected) :
    Collected program (machine.turn limit).machine (collected ++ machine.collections)
  | on {machine : Machine σ} {collected : List Memory} (kind : EventKind)
    (before : Collected program machine collected) : Collected program (machine.on kind) collected
  | load {machine : Machine σ} {collected : List Memory} (kinds : List EventKind)
    (before : Collected program machine collected) :
    Collected program (machine.load kinds).1 collected

end Machine

/-- Every scope is one that survived, one that stayed when its call returned, or the scope of a call that
has not returned. -/
structure Arena.Bounded (arena : Arena) (survivors bodies : Nat) : Prop where
  live_le : arena.live ≤ survivors + arena.retained + bodies
  retained_lt : arena.retained < arena.threshold
  threshold_eq : arena.threshold = max leastThreshold (2 * survivors)

namespace Arena.Bounded

variable {arena before after : Arena} {survivors bodies : Nat}

theorem level (bounded : before.Bounded survivors bodies) (level : before.Level after) :
    after.Bounded survivors bodies := by
  obtain ⟨live, retained, threshold⟩ := bounded
  refine ⟨?_, ?_, ?_⟩
  · rw [level.live, level.retained]
    exact live
  · rw [level.retained, level.threshold]
    exact retained
  · rw [level.threshold]
    exact threshold

theorem push (bounded : arena.Bounded survivors bodies)
    (vacant : ∀ slot ∈ arena.free, arena.slots[slot]? = some none) (parent : ScopeId)
    (frame : Option Frame) : (arena.push parent frame).2.Bounded survivors (bodies + 1) := by
  have counted := arena.live_push vacant parent frame
  have kept : (arena.push parent frame).2.retained = arena.retained ∧
      (arena.push parent frame).2.threshold = arena.threshold := by
    unfold Arena.push
    cases arena.free <;> exact ⟨rfl, rfl⟩
  obtain ⟨live, retained, threshold⟩ := bounded
  refine ⟨?_, ?_, ?_⟩
  · rw [counted, kept.1]
    omega
  · rw [kept.1, kept.2]
    exact retained
  · rw [kept.2]
    exact threshold

theorem collect (arena : Arena) (heap : Heap) (roots : List ScopeId) (values : List Value)
    (bodies : Nat) :
    (arena.collect heap roots values).2.Bounded (arena.collect heap roots values).2.live bodies := by
  refine ⟨Nat.le_trans (Nat.le_add_right _ _) (Nat.le_add_right _ _), ?_, rfl⟩
  exact Nat.lt_of_lt_of_le (by decide : 0 < leastThreshold) (Nat.le_max_left _ _)

end Arena.Bounded

namespace Memory

variable {memory : Memory} {memories : List Memory} {bodies : Nat}

theorem collected_nil (left after : Memory) : collected left after [] = [] := rfl

theorem collected_called (left after : Memory) (closure : Closure) (arguments : List Value) :
    collected left after [.called closure arguments] = [] := rfl

theorem survivors_append_one (memories : List Memory) (memory : Memory) :
    survivors (memories ++ [memory]) = memory.scopes.live := by
  simp [survivors]

theorem bounded_enter (bounded : memory.scopes.Bounded (survivors memories) bodies)
    (vacant : ∀ slot ∈ memory.scopes.free, memory.scopes.slots[slot]? = some none)
    (closure : Closure) (arguments : List Value) :
    (memory.enter closure arguments).2.scopes.Bounded (survivors memories) (bodies + 1) :=
  (bounded.push vacant closure.scope (some ⟨closure.name, closure.parameters⟩)).level
    (Arena.level_assignAll _ _ _)

theorem isSome_enter (vacant : ∀ slot ∈ memory.scopes.free, memory.scopes.slots[slot]? = some none)
    (closure : Closure) (arguments : List Value) {id : ScopeId}
    (place : id = (memory.enter closure arguments).1 ∨ (memory.scopes.scope? id).isSome) :
    ((memory.enter closure arguments).2.scopes.scope? id).isSome := by
  obtain ⟨-, opened, others⟩ := memory.scopes.scope?_push vacant closure.scope
    (some ⟨closure.name, closure.parameters⟩)
  have level := Arena.level_assignAll (memory.scopes.push closure.scope
    (some ⟨closure.name, closure.parameters⟩)).2 (memory.enter closure arguments).1
    (closure.parameters.zip arguments)
  refine (level.isSome id).trans ?_
  by_cases new : id = (memory.enter closure arguments).1
  · rw [new]
    exact congrArg Option.isSome opened
  · rw [others id new]
    exact place.resolve_left new

/-- The return of a call is noted as a collection just if it is one. Otherwise only its own scope is given back,
if any. -/
theorem release_collected (few : memory.scopes.retained < memory.scopes.threshold) {scope : ScopeId}
    (present : (memory.scopes.scope? scope).isSome) (stack : Stack) (value : Value) :
    (collected (memory.leave scope stack) (memory.release scope stack) [.returned value] =
        [memory.release scope stack] ∧
      memory.release scope stack = (memory.leave scope stack).collect stack) ∨
    (collected (memory.leave scope stack) (memory.release scope stack) [.returned value] = [] ∧
      memory.release scope stack = memory.leave scope stack ∧
      (memory.leave scope stack).scopes.retained < (memory.leave scope stack).scopes.threshold) := by
  cases wants : (memory.scopes.release scope).2.wantsCollection with
  | true =>
    -- a scope that is given back leaves the retained ones as few as they were
    have stays : (memory.scopes.release scope).1 = false := by
      rcases Arena.release_counts present with ⟨-, -, same, limit⟩ | ⟨stays, -⟩
      · have many := of_decide_eq_true wants
        omega
      · exact stays
    exact .inl ⟨by simp [collected, Passage.isReturn, leave, wants], by simp [release, leave, stays, wants]⟩
  | false =>
    exact .inr ⟨by simp [collected, leave, wants], by simp [release, leave, wants],
      Nat.lt_of_not_le (of_decide_eq_false wants)⟩

/-- The scope of a call that returns is given back, or it is retained. When too many are, a collection
counts anew. -/
theorem bounded_release (bounded : memory.scopes.Bounded (survivors memories) (bodies + 1))
    {scope : ScopeId} (present : (memory.scopes.scope? scope).isSome) (stack : Stack) (value : Value) :
    (memory.release scope stack).scopes.Bounded
      (survivors (memories ++
        collected (memory.leave scope stack) (memory.release scope stack) [.returned value])) bodies := by
  obtain ⟨live, retained, threshold⟩ := bounded
  rcases release_collected retained present stack value with ⟨noted, swept⟩ | ⟨noted, left, few⟩
  · rw [noted, survivors_append_one, swept]
    exact .collect _ _ _ _ _
  · rw [noted, List.append_nil, left]
    simp only [leave] at few ⊢
    rcases Arena.release_counts present with ⟨-, fewer, same, limit⟩ | ⟨-, same, more, limit⟩
    · exact ⟨by omega, few, limit.trans threshold⟩
    · exact ⟨by omega, few, limit.trans threshold⟩

end Memory

namespace Stack

variable {activity : Activity} {rest : Stack}

theorem bodies_cons (top : Continuation) (rest : Stack) :
    bodies (top :: rest) = bodies rest + if top.isBody then 1 else 0 := by
  simp [bodies, List.countP_cons]

theorem isBody_of_stays (stays : activity.sequel ≠ .return) :
    (Continuation.running activity).isBody = false := by
  cases sequel : activity.sequel with
  | «return» => exact absurd sequel stays
  | nothing => simp [Continuation.isBody, sequel]
  | recheck => simp [Continuation.isBody, sequel]

theorem isBody_of_return (ends : activity.sequel = .return) :
    (Continuation.running activity).isBody = true := by
  simp [Continuation.isBody, ends]

@[simp] theorem bodies_deliver (value : Value) (stack : Stack) :
    bodies (deliver value stack) = bodies stack := by
  cases stack with
  | nil => rfl
  | cons top rest =>
    have same : (top.deliver value).isBody = top.isBody := by cases top <;> rfl
    rw [deliver, bodies_cons, bodies_cons, same]

theorem bodies_resume (waiting : Activity)
    (header : ∀ loop, waiting.work = .header loop → waiting.sequel ≠ .return) (rest : Stack) :
    bodies (resume waiting rest) = bodies (.running waiting :: rest) := by
  obtain ⟨work, scope, sequel, replay⟩ := waiting
  cases work with
  | header loop =>
    rw [bodies_cons, isBody_of_stays (header loop rfl)]
    rfl
  | statements remaining =>
    simp only [resume, Activity.next?]
    split
    · rename_i left chosen
      split at chosen
      · cases chosen
      · cases chosen
        rw [bodies_cons, bodies_cons]
        rfl
    · rename_i chosen
      split at chosen
      · simp [bodies_cons, Continuation.isBody]
      · cases chosen

/-- A return leaves the innermost call, whose body is on the stack. -/
theorem bodies_unwind {stack below : Stack} {callee : ScopeId}
    (begun : ∀ continuation ∈ stack, ∃ activity, continuation = .running activity)
    (unwound : unwind stack = some (callee, below)) :
    bodies stack = bodies below + 1 ∧
      ∃ continuation ∈ stack, continuation.scope = callee := by
  induction stack with
  | nil => cases unwound
  | cons top rest ih =>
    obtain ⟨activity, rfl⟩ := begun top List.mem_cons_self
    have same : (Continuation.running activity).isBody = (Continuation.running activity).isCall := rfl
    rw [unwind] at unwound
    rw [bodies_cons, same]
    split at unwound
    · rename_i call
      cases unwound
      rw [if_pos call]
      exact ⟨rfl, _, List.mem_cons_self, rfl⟩
    · rename_i inner
      obtain ⟨counted, continuation, inside, place⟩ :=
        ih (fun other further => begun other (List.mem_cons_of_mem _ further)) unwound
      rw [if_neg inner]
      exact ⟨counted, continuation, List.mem_cons_of_mem _ inside, place⟩

end Stack

namespace Memory

variable {program : List Node} {memory : Memory} {memories : List Memory}

/-- When all calls are entered, at most one returns on the way to a statement, and the scope of its body is
there. -/
theorem bounded_settle_begun {segments : List Segment} (shape : Segment.Shape σ program none segments)
    (present : ∀ continuation ∈ Stack.join segments,
      (memory.scopes.scope? continuation.scope).isSome)
    (begun : ∀ continuation ∈ Stack.join segments, ∃ activity, continuation = .running activity)
    (bounded : memory.scopes.Bounded (survivors memories) (Stack.bodies (Stack.join segments))) :
    (memory.settleWith release (Stack.join segments)).memory.scopes.Bounded
      (survivors (memories ++ memory.collectedBefore (Stack.join segments)))
      (Stack.bodies (memory.settleWith release (Stack.join segments)).stack) := by
  unfold collectedBefore
  generalize stacked : Stack.join segments = stack at present begun bounded
  induction memory, stack using settleWith.induct release generalizing segments with
  | case1 memory =>
    simp only [settleWith_nil, collected_nil, List.append_nil]
    exact bounded
  | case2 memory closure arguments rest =>
    obtain ⟨activity, impossible⟩ := begun _ List.mem_cons_self
    cases impossible
  | case3 memory activity rest node current =>
    simp only [settleWith_statement current, collected_nil, List.append_nil]
    exact bounded
  | case4 memory activity rest sequel spent ih =>
    obtain ⟨between, stacked', shape', -⟩ := shape.drop stacked sequel
    simp only [settleWith_nothing spent sequel]
    rw [Stack.bodies_cons, Stack.isBody_of_stays (by simp [sequel])] at bounded
    exact ih shape' stacked'
      (fun continuation inside => present continuation (List.mem_cons_of_mem _ inside))
      (fun continuation inside => begun continuation (List.mem_cons_of_mem _ inside)) bounded
  | case5 memory activity rest loop sequel spent =>
    simp only [settleWith_recheck spent sequel, collected_nil, List.append_nil]
    rw [Stack.bodies_cons, Stack.isBody_of_stays (by simp [sequel])] at bounded
    rw [Settled.stack, Stack.bodies_cons, Stack.isBody_of_stays (by simp [Activity.header])]
    exact bounded
  | case6 memory activity rest sequel spent delivered =>
    obtain ⟨caller, node, below, resumed, current⟩ := shape.return_waits stacked sequel .none
    rw [Stack.bodies_cons, Stack.isBody_of_return sequel, if_pos rfl] at bounded
    have left := bounded_release bounded (present (.running activity) List.mem_cons_self)
      (.deliver .none rest) .none
    have count := Stack.bodies_deliver .none rest
    -- the caller goes on at once, so that no other call returns
    simp only [settleWith_return spent sequel]
    rw [resumed] at left count ⊢
    simp only [settleWith_statement current, Settled.after, Settled.stack]
    rw [count]
    exact left

/-- The bound holds in front of the next statement if it held before. -/
theorem Carries.bounded_settle {segments : List Segment}
    (carries : memory.Carries (Stack.join segments)) (shape : Segment.Shape σ program none segments)
    (bounded : memory.scopes.Bounded (survivors memories) (Stack.bodies (Stack.join segments))) :
    (memory.settleWith release (Stack.join segments)).memory.scopes.Bounded
      (survivors (memories ++ memory.collectedBefore (Stack.join segments)))
      (Stack.bodies (memory.settleWith release (Stack.join segments)).stack) := by
  have present : ∀ continuation ∈ Stack.join segments,
      (memory.scopes.scope? continuation.scope).isSome := fun continuation => carries.stands
  rcases shape.begun_or_entering with begun | ⟨closure, arguments, rest, stacked⟩
  · exact bounded_settle_begun shape present begun bounded
  · obtain ⟨entered, stacked', shape', -⟩ := shape.enter stacked (memory.enter closure arguments).1
    have more := bounded_enter bounded carries.vacant closure arguments
    have stands : ∀ continuation ∈ Stack.join entered,
        ((memory.enter closure arguments).2.scopes.scope? continuation.scope).isSome := by
      rw [stacked', List.forall_mem_cons]
      refine ⟨isSome_enter carries.vacant closure arguments (.inl rfl), fun continuation inside => ?_⟩
      refine isSome_enter carries.vacant closure arguments (.inr (present continuation ?_))
      exact stacked ▸ List.mem_cons_of_mem _ inside
    have settled := bounded_settle_begun shape' stands (shape'.begun_of_running stacked') (by
      rw [stacked', Stack.bodies_cons, Stack.isBody_of_return rfl, if_pos rfl]
      rw [stacked] at more
      exact more)
    unfold collectedBefore at settled ⊢
    rw [stacked'] at settled
    rw [stacked, settleWith_entering, settleWith_entering]
    exact settled

end Memory

namespace Segment

variable {program : List Node} {owner : Option Call} {scope : ScopeId} {activity : Activity}
  {below : List Activity} {lower : List Segment}

/-- A return leaves the innermost call, and the bound holds for what stands below. -/
theorem Shape.bounded_leave {before after : Memory} {replay : Replay} {memories : List Memory}
    (shape : Shape σ program none (.active owner scope (activity :: below) :: lower))
    (level : before.scopes.Level after.scopes)
    (present : ∀ continuation ∈ Stack.join (.active owner scope (activity :: below) :: lower),
      (before.scopes.scope? continuation.scope).isSome)
    (bounded : after.scopes.Bounded (Memory.survivors memories)
      (Stack.bodies (.running { activity with replay } :: (below.map Continuation.running ++ Stack.join lower))))
    {value : Value} {stack : Stack}
    (proceeds : Stack.proceed { activity with replay } (below.map Continuation.running ++ Stack.join lower)
      (.ok (.leave value)) = some stack) :
    (Stack.vacate Memory.release after
        (.running { activity with replay } :: (below.map Continuation.running ++ Stack.join lower))
        (.ok (.leave value))).scopes.Bounded
      (Memory.survivors (memories ++ Stack.collectedAfter after
        (.running { activity with replay } :: (below.map Continuation.running ++ Stack.join lower))
        (.ok (.leave value))))
      (Stack.bodies stack) := by
  let waiting : Activity := { activity with replay }
  let rest := below.map Continuation.running ++ Stack.join lower
  obtain ⟨⟨callee, left⟩, unwound, rfl⟩ := Option.map_eq_some_iff.1 proceeds
  have begun : ∀ continuation ∈ (.running waiting :: rest : Stack),
      ∃ activity, continuation = .running activity :=
    List.forall_mem_cons.2 ⟨⟨waiting, rfl⟩, (List.forall_mem_cons.1 shape.begun).2⟩
  -- the body that returns is one of those counted, and its scope is the one that is given back
  obtain ⟨counted, continuation, inside, rfl⟩ := Stack.bodies_unwind begun unwound
  have stands : (after.scopes.scope? continuation.scope).isSome := by
    rw [level.isSome]
    rcases List.mem_cons.1 inside with rfl | inside
    · exact present (.running activity) List.mem_cons_self
    · exact present continuation (List.mem_cons_of_mem _ inside)
  rw [counted] at bounded
  simp only [Stack.vacate, Stack.collectedAfter, Passage.ofFlow]
  rw [unwound, Stack.bodies_deliver]
  exact Memory.bounded_release bounded stands _ _

/-- An attempt at a statement keeps the bound: it opens no scope itself, and it leaves at most the innermost
call. -/
theorem Shape.bounded_attempt
    (shape : Shape σ program none (.active owner scope (activity :: below) :: lower)) {node : Node}
    {surroundings : Surroundings σ} {before after : Progress σ} {flow : Except Interrupt Flow}
    (attempted : Evaluation.exec surroundings node before = (flow, after)) {memories : List Memory}
    (present : ∀ continuation ∈ Stack.join (.active owner scope (activity :: below) :: lower),
      (before.memory.scopes.scope? continuation.scope).isSome)
    (bounded : before.memory.scopes.Bounded (Memory.survivors memories)
      (Stack.bodies (Stack.join (.active owner scope (activity :: below) :: lower))))
    {stack : Stack}
    (proceeds : Stack.proceed { activity with replay := after.replay }
      (below.map Continuation.running ++ Stack.join lower) flow = some stack) :
    (Stack.vacate Memory.release after.memory
        (.running { activity with replay := after.replay } ::
          (below.map Continuation.running ++ Stack.join lower)) flow).scopes.Bounded
      (Memory.survivors (memories ++ Stack.collectedAfter after.memory
        (.running { activity with replay := after.replay } ::
          (below.map Continuation.running ++ Stack.join lower)) flow))
      (Stack.bodies stack) := by
  have level := Evaluation.even_exec surroundings node before
  rw [attempted] at level
  let waiting : Activity := { activity with replay := after.replay }
  let rest := below.map Continuation.running ++ Stack.join lower
  have same : Stack.bodies (.running waiting :: rest) = Stack.bodies (.running activity :: rest) := by
    rw [Stack.bodies_cons, Stack.bodies_cons]
    rfl
  -- the body of a call is never the condition of a loop, so the same bodies stand when the statement is done
  have header : ∀ loop, waiting.work = .header loop → waiting.sequel ≠ .return := by
    intro loop work ends
    obtain ⟨stand, -, -⟩ := shape.top
    obtain ⟨-, -, remaining, statements⟩ := stand.of_return ends
    exact absurd (work.symm.trans statements) (by simp)
  have resumed := Stack.bodies_resume waiting header rest
  have wrote := bounded.level level
  rw [show Stack.bodies (Stack.join (.active owner scope (activity :: below) :: lower)) =
    Stack.bodies (.running waiting :: rest) from same.symm] at wrote
  rcases flow with (fault | ⟨closure, arguments⟩) | (_ | inner | value)
  · cases proceeds
  · cases proceeds
    simp only [Stack.vacate, Stack.collectedAfter, Passage.ofFlow, Memory.collected_called,
      List.append_nil]
    exact wrote
  · cases proceeds
    simp only [Stack.vacate, Stack.collectedAfter, Passage.ofFlow, Memory.collected_nil, List.append_nil]
    rw [← resumed] at wrote
    exact wrote
  · cases proceeds
    simp only [Stack.vacate, Stack.collectedAfter, Passage.ofFlow, Memory.collected_nil, List.append_nil]
    rw [← resumed] at wrote
    rw [Stack.bodies_cons, Stack.isBody_of_stays (Evaluation.exec_enter attempted).2.2.1]
    exact wrote
  · exact shape.bounded_leave level present wrote proceeds

end Segment

namespace Machine

variable {program : Block} {machine : Machine σ} {calls : List Call} {memories : List Memory}

theorem Reached.bounded_step (reached : Reached program machine calls)
    (goes : machine.step.machine.status = .running)
    (bounded : machine.memory.scopes.Bounded (Memory.survivors memories)
      (Stack.bodies machine.stack)) :
    machine.step.machine.memory.scopes.Bounded
      (Memory.survivors (memories ++ machine.collections))
      (Stack.bodies machine.step.machine.stack) := by
  have running := status_of_step goes
  obtain ⟨segments, stacked, -, shape⟩ := reached.shape running
  have carries := reached.carries running
  have there := reached.carries_settled running
  obtain ⟨later, -, ready⟩ := settles shape stacked
  have settled : machine.settled.memory.scopes.Bounded
      (Memory.survivors (memories ++ machine.memory.collectedBefore machine.stack))
      (Stack.bodies machine.settled.stack) := by
    unfold Machine.settled
    rw [stacked] at carries bounded ⊢
    exact carries.bounded_settle shape bounded
  cases next : machine.settled.next with
  | none =>
    rw [step_eq running, next] at goes
    cases goes
  | some upcoming =>
    obtain ⟨activity, node, rest⟩ := upcoming
    rw [next] at ready
    cases ready with
    | @statement owner scope _ _ below lower current shape' =>
      rw [Settled.stack, next] at settled there
      unfold Machine.collections
      rw [next, ← List.append_assoc]
      rw [step_of_next running next] at goes ⊢
      generalize memories ++ machine.memory.collectedBefore machine.stack = before at settled ⊢
      dsimp only at goes ⊢
      cases proceeds : Stack.proceed
          { activity with replay := (machine.attempt machine.settled.memory activity node).2.replay }
          (below.map Continuation.running ++ Stack.join lower)
          (machine.attempt machine.settled.memory activity node).1 with
      | none =>
        rw [proceeds] at goes
        cases goes
      | some stack =>
        exact shape'.bounded_attempt rfl (fun continuation => there.stands) settled proceeds

theorem bounded_of_ofProgram {globals : Globals σ} {host : σ}
    (ready : ofProgram program globals host = .ok machine) :
    machine.memory.scopes.Bounded (Memory.survivors []) (Stack.bodies machine.stack) := by
  have initial : Memory.initial.scopes.Bounded (Memory.survivors []) 0 := by
    constructor <;> decide
  have level : Memory.initial.scopes.Level machine.memory.scopes :=
    ofProgram_keeps (fun memory => Memory.initial.scopes.Level memory.scopes)
      (fun memory name native level => level.trans (memory.scopes.level_modify Arena.global _))
      (fun memory json value heap name level _ => level.trans (memory.scopes.level_modify Arena.global _))
      (Arena.level_refl _) ready
  rw [(begins_of_ofProgram ready).1]
  exact initial.level level

theorem Collected.reached (history : Collected program machine memories) :
    ∃ calls, Reached program machine calls := by
  induction history with
  | start ready => exact ⟨_, .start ready⟩
  | step limit running within before ih =>
    obtain ⟨calls, reached⟩ := ih
    exact ⟨_, reached.turn limit⟩
  | on kind before ih =>
    obtain ⟨calls, reached⟩ := ih
    exact ⟨_, reached.on kind⟩
  | load kinds before ih =>
    obtain ⟨calls, reached⟩ := ih
    exact ⟨_, reached.load kinds⟩

theorem Reached.collected (reached : Reached program machine calls)
    (running : machine.status = .running) : ∃ memories, Collected program machine memories := by
  induction reached with
  | start ready => exact ⟨_, .start ready⟩
  | @turn machine calls limit before ih =>
    cases within : machine.exceeds limit with
    | true =>
      simp only [Machine.turn, within, if_true] at running
      cases running
    | false =>
      have before' : machine.status = .running := by
        simp only [Machine.turn, within, Bool.false_eq_true, if_false] at running
        exact status_of_step running
      obtain ⟨memories, history⟩ := ih before'
      exact ⟨_, .step limit before' within history⟩
  | on kind before ih =>
    obtain ⟨memories, history⟩ := ih running
    exact ⟨_, .on kind history⟩
  | load kinds before ih =>
    obtain ⟨memories, history⟩ := ih running
    exact ⟨_, .load kinds history⟩

theorem Collected.bounded (history : Collected program machine memories)
    (running : machine.status = .running) :
    machine.memory.scopes.Bounded (Memory.survivors memories) (Stack.bodies machine.stack) := by
  induction history with
  | start ready => exact bounded_of_ofProgram ready
  | @step machine memories limit before within history ih =>
    obtain ⟨calls, reached⟩ := history.reached
    simp only [turn, within, Bool.false_eq_true, if_false] at running ⊢
    exact reached.bounded_step running (ih before)
  | on kind history ih => exact ih running
  | load kinds history ih => exact ih running

end Machine

end TabScript
