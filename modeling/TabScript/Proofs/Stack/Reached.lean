import TabScript.Proofs.Stack.Answers

/-! The states of a run, with the calls that are active in them.

The calls are told from what the steps do, and the segments of the stack are those of the calls. -/

set_option autoImplicit false

namespace TabScript

variable {σ : Type}

namespace Machine

/-- The states that a program can come to, however many steps are taken and whenever hooks are added,
with the active calls, the innermost first. -/
inductive Reached (program : Block) : Machine σ → List Call → Prop where
  | start {globals : Globals σ} {host : σ} {machine : Machine σ}
    (ready : ofProgram program globals host = .ok machine) : Reached program machine []
  | turn {machine : Machine σ} {calls : List Call} (limit : Option Nat)
    (before : Reached program machine calls) :
    Reached program (machine.turn limit).machine (machine.passages.foldl Passage.follow calls)
  | on {machine : Machine σ} {calls : List Call} (kind : EventKind)
    (before : Reached program machine calls) : Reached program (machine.on kind) calls
  | load {machine : Machine σ} {calls : List Call} (kinds : List EventKind)
    (before : Reached program machine calls) : Reached program (machine.load kinds).1 calls

/-- What the next step makes of the segments. If the run goes on, they change by the passages of the
step and nothing else. It is over only when all calls have returned, and it fails only where its
statement fails or where a return stands outside of all calls. -/
def Advances (program : List Node) (machine : Machine σ) (segments : List Segment) : Prop :=
  match machine.step.result with
  | .ok (some _) =>
    machine.step.machine.status = .running ∧
      ∃ later, machine.step.machine.stack = Stack.join later ∧ Segment.Shape σ program none later ∧
        Segment.Passes σ segments machine.passages later
  | .ok none =>
    machine.step.machine.status = .exited ∧
      Segment.Passes σ segments machine.passages [.active none Arena.global []]
  | .error fault =>
    machine.step.machine.status = .halted ∧
      (machine.flow? = some (.error (.fail fault)) ∨
        ∃ value span scope activities, machine.flow? = some (.ok (.leave value)) ∧
          fault = ⟨.returnOutsideFunction, span⟩ ∧
          Segment.Passes σ segments machine.settled.passages [.active none scope activities])

/-- Where the next step leaves a call. A body that has come to its end gives `None`, and the statement that called
is what the step then runs. A return statement gives its value, and the step leaves it to the statement that
called. Either way the stack is as it was up to there, with the value in the slot that waited for it. -/
structure Answers (machine : Machine σ) (segments : List Segment) : Prop where
  ends : ∀ before value after, machine.settled.passages = before ++ .returned value :: after →
    after = [] ∧ value = .none ∧ ∃ between later, Segment.Passes σ segments before between ∧
      Segment.Answers σ .none between later ∧ machine.settled.stack = Stack.join later
  leaves : ∀ value, machine.flow? = some (.ok (.leave value)) → machine.step.machine.status = .running →
    ∃ between later, Segment.Passes σ segments machine.settled.passages between ∧
      machine.settled.stack = Stack.join between ∧ Segment.Answers σ value between later ∧
      machine.step.machine.stack = Stack.join later

theorem step_eq {machine : Machine σ} (running : machine.status = .running) :
    machine.step =
      match machine.settled.next with
      | none => exit { machine with memory := machine.settled.memory, stack := [] }
      | some (activity, node, rest) =>
        run { machine with memory := .initial, stack := [] } machine.settled.memory activity node
          rest := by
  obtain ⟨memory, stack, hooks, status, loaded, executed, hosts, host⟩ := machine
  obtain rfl : status = .running := running
  simp only [step, if_true, Memory.settle, settled]
  rcases (memory.settleWith Memory.release stack).next with _ | ⟨activity, node, rest⟩ <;> rfl

theorem step_of_idle {machine : Machine σ} (idle : machine.status ≠ .running) :
    machine.step = ⟨.ok none, machine, []⟩ := by
  unfold step
  rw [if_neg idle]

/-- A step that finds a statement goes on where the stack does, and otherwise it fails. -/
theorem step_of_next {machine : Machine σ} (running : machine.status = .running) {activity : Activity}
    {node : Node} {rest : Stack} (next : machine.settled.next = some (activity, node, rest)) :
    machine.step =
      let reached := machine.attempt machine.settled.memory activity node
      let waiting : Activity := { activity with replay := reached.2.replay }
      let counted : Machine σ :=
        { machine with
          executed := machine.executed + if activity.replay.resumed then 0 else 1
          memory := .initial
          stack := [] }
      match Stack.proceed waiting rest reached.1 with
      | some stack =>
        counted.conclude
          { reached.2 with
            memory := Stack.vacate Memory.release reached.2.memory (.running waiting :: rest)
              reached.1 }
          stack ⟨node.tag, node.span⟩
      | none =>
        (counted.absorb reached.2 []).halt (Stack.failure node.span reached.1) reached.2.calls := by
  rw [step_eq running, next]
  exact run_eq _ _ _ _ _

theorem settles {program : List Node} {machine : Machine σ} {segments : List Segment}
    (shape : Segment.Shape σ program none segments) (stacked : machine.stack = Stack.join segments) :
    ∃ later, Segment.Passes σ segments machine.settled.passages later ∧
      Segment.Ready σ program machine.settled.next later := by
  unfold settled
  rw [stacked]
  exact shape.settle Memory.release machine.memory

theorem advances {program : List Node} {machine : Machine σ} {segments : List Segment}
    (shape : Segment.Shape σ program none segments) (stacked : machine.stack = Stack.join segments)
    (running : machine.status = .running) : machine.Advances program segments := by
  obtain ⟨later, passes, ready⟩ := settles shape stacked
  unfold Advances
  cases next : machine.settled.next with
  | none =>
    rw [next] at ready
    cases ready
    have quiet : machine.passages = machine.settled.passages := by
      simp [passages, flow?, next]
    simp only [step_eq running, next, exit, quiet]
    exact ⟨trivial, passes⟩
  | some upcoming =>
    obtain ⟨activity, node, rest⟩ := upcoming
    have flow : machine.flow? = some (machine.attempt machine.settled.memory activity node).1 := by
      simp [flow?, next]
    have moves : machine.passages = machine.settled.passages ++
        Passage.ofFlow (machine.attempt machine.settled.memory activity node).1 := by
      simp [passages, flow]
    rw [step_of_next running next]
    rw [next] at ready
    cases ready with
    | @statement owner scope _ _ below lower current shape' =>
      have proceeds : Segment.Proceeds σ program (.active owner scope (activity :: below) :: lower) owner
          (machine.attempt machine.settled.memory activity node).1 (Stack.proceed
            { activity with
              replay := (machine.attempt machine.settled.memory activity node).2.replay }
            (below.map Continuation.running ++ Stack.join lower)
            (machine.attempt machine.settled.memory activity node).1) :=
        shape'.proceed current rfl rfl
      generalize machine.attempt machine.settled.memory activity node = reached at *
      dsimp only
      cases goes : Stack.proceed { activity with replay := reached.2.replay }
        (below.map Continuation.running ++ Stack.join lower) reached.1 with
      | some stack =>
        rw [goes] at proceeds
        obtain ⟨after, rfl, shape'', passes'⟩ := proceeds
        refine ⟨running, after, rfl, shape'', ?_⟩
        rw [moves]
        exact passes.append passes'
      | none =>
        rw [goes] at proceeds
        -- there is no stack to go on with just if the statement failed or returned outside of every call
        refine ⟨rfl, ?_⟩
        rcases proceeds with ⟨fault, fails⟩ | ⟨rfl, value, leaves⟩
        · rw [fails]
          exact .inl (flow.trans (congrArg some fails))
        · rw [leaves]
          refine .inr ⟨value, node.span, scope, activity :: below,
            flow.trans (congrArg some leaves), rfl, ?_⟩
          cases shape' with
          | program => exact passes

theorem answers {program : List Node} {machine : Machine σ} {segments : List Segment}
    (shape : Segment.Shape σ program none segments) (stacked : machine.stack = Stack.join segments)
    (running : machine.status = .running) : machine.Answers segments where
  ends before value after way := by
    unfold settled at way ⊢
    rw [stacked] at way ⊢
    exact shape.settle_returned Memory.release machine.memory way
  leaves value leaves goesOn := by
    obtain ⟨between, passes, ready⟩ := settles shape stacked
    cases next : machine.settled.next with
    | none =>
      rw [flow?, next] at leaves
      cases leaves
    | some upcoming =>
      obtain ⟨activity, node, rest⟩ := upcoming
      rw [flow?, next, Option.map_some, Option.some.injEq] at leaves
      dsimp only at leaves
      have stands : machine.settled.stack = .running activity :: rest := by rw [Settled.stack, next]
      rw [step_of_next running next] at goesOn ⊢
      rw [next] at ready
      cases ready with
      | @statement owner scope _ _ below lower current shape' =>
        obtain ⟨stand, idle, -⟩ := shape'.top
        have kept := Evaluation.orderly_exec ⟨activity.scope, machine.wants, machine.hosts⟩ node
          ⟨machine.settled.memory, activity.replay.rewind, machine.host, [], []⟩ stand.fits.sound.rewind
          (idle activity List.mem_cons_self)
        change Evaluation.Keeps _ _ (machine.attempt machine.settled.memory activity node) at kept
        dsimp only at goesOn ⊢
        generalize machine.attempt machine.settled.memory activity node = reached at *
        obtain ⟨flow, after⟩ := reached
        obtain rfl : flow = .ok (.leave value) := leaves
        rcases shape'.proceed_leave kept.1.sound value with ⟨-, goes⟩ | ⟨later, goes, -, answers⟩
        · simp only [goes] at goesOn
          cases goesOn
        · refine ⟨_, later, passes, stands, answers, ?_⟩
          simp only [goes]
          rfl

theorem Advances.goesOn {program : List Node} {machine : Machine σ} {segments : List Segment}
    (advances : machine.Advances program segments)
    (running : machine.step.machine.status = .running) :
    ∃ later, machine.step.machine.stack = Stack.join later ∧
      Segment.Shape σ program none later ∧ Segment.Passes σ segments machine.passages later := by
  unfold Advances at advances
  cases result : machine.step.result with
  | ok info =>
    cases info with
    | some info =>
      rw [result] at advances
      exact advances.2
    | none =>
      rw [result, running] at advances
      cases advances.1
  | error fault =>
    rw [result, running] at advances
    cases advances.1

theorem status_of_step {machine : Machine σ} (running : machine.step.machine.status = .running) :
    machine.status = .running := by
  by_cases before : machine.status = .running
  · exact before
  · simp only [step, before, if_false] at running

theorem begins_of_ofProgram {program : Block} {globals : Globals σ} {host : σ} {machine : Machine σ}
    (ready : ofProgram program globals host = .ok machine) :
    machine.stack =
        Stack.join [.active none Arena.global [.block program.statements Arena.global]] ∧
      Segment.Shape σ program.statements none
        [.active none Arena.global [.block program.statements Arena.global]] := by
  constructor
  · unfold ofProgram at ready
    obtain ⟨⟨memory, hosts⟩, -, made⟩ := except_bind_ok ready
    cases made
    rfl
  · refine .program (.inner (by simp [Activity.block]) ⟨rfl, ?_, Replay.sound_fresh⟩ (.program rfl)) ?_
    · simp [Activity.reach, Activity.block]
    · intro activity inside
      obtain rfl := List.mem_singleton.1 inside
      rfl

theorem Reached.shape {program : Block} {machine : Machine σ} {calls : List Call}
    (reached : Reached program machine calls) (running : machine.status = .running) :
    ∃ segments, machine.stack = Stack.join segments ∧ segments.filterMap Segment.call? = calls ∧
      Segment.Shape σ program.statements none segments := by
  induction reached with
  | @start globals host machine ready =>
    obtain ⟨begins, shape⟩ := begins_of_ofProgram ready
    exact ⟨_, begins, rfl, shape⟩
  | @turn machine calls limit before ih =>
    by_cases beyond : machine.exceeds limit
    · simp only [Machine.turn, beyond, if_true] at running
      cases running
    · simp only [Machine.turn, beyond, Bool.false_eq_true, if_false] at running ⊢
      have before' := status_of_step running
      obtain ⟨segments, stacked, named, shape⟩ := ih before'
      obtain ⟨later, stacked', shape', passes⟩ := (advances shape stacked before').goesOn running
      exact ⟨later, stacked', by rw [passes.calls, named], shape'⟩
  | on kind before ih => exact ih running
  | load kinds before ih => exact ih running

/-- Whenever a run can go on, its stack falls into one segment for every active call, the innermost
first, and one for the program. They all work in the scope of their call, never with more continuations
than one and the depth of the blocks in its body, and every call is what the statement below it waits
for. The next step keeps this, and a value that is returned goes into the slot that waits for it, from where
nothing takes it as long as the statement is not done. -/
theorem Reached.stack_in_segments {program : Block} {machine : Machine σ} {calls : List Call}
    (reached : Reached program machine calls) (running : machine.status = .running) :
    ∃ segments : List Segment,
      machine.stack = Stack.join segments ∧
      segments.map Segment.call? = calls.map some ++ [none] ∧
      Segment.Shape σ program.statements none segments ∧
      (∀ segment ∈ segments,
        (∀ continuation ∈ segment.continuations, continuation.scope = segment.scope) ∧
        segment.continuations.length ≤
          1 + Node.depths (Call.body program.statements segment.call?)) ∧
      machine.Advances program.statements segments ∧ machine.Answers segments := by
  obtain ⟨segments, stacked, named, shape⟩ := reached.shape running
  refine ⟨segments, stacked, ?_, shape, fun segment inside => ⟨?_, ?_⟩,
    advances shape stacked running, answers shape stacked running⟩
  · rw [← named]
    exact shape.calls
  · exact shape.scope_eq segment inside
  · exact shape.length_le segment inside

def calling : Block :=
  .of default [.definition default "f" [] (.of default [.pass default]),
    .call default (.identifier default "f") []]

def returning : Block :=
  .of default [.definition default "f" []
      (.of default [.result default (some (.literal default (some (.boolean true))))]),
    .call default (.identifier default "f") []]

/-- Two steps ask for the call, and after the third one its value is in the slot that waited for it. -/
theorem stack_in_segments_returning :
    ∃ (machine waiting : Machine Unit) (call : Call) (caller : Activity) (slot stop : Nat) (rest : Stack),
      ofProgram returning [] () = .ok machine ∧
      waiting = ((machine.turn none).machine.turn none).machine ∧ waiting.status = .running ∧
      caller.Awaits Unit call ∧ caller.replay.waiting = some (slot, stop) ∧
      waiting.step.machine.stack =
        .running (caller.answered slot stop (.boolean true)) :: rest ∧
      (caller.answered slot stop (.boolean true)).replay.slots[slot]? =
        some (some ⟨.boolean true, stop⟩) := by
  have ready : ofProgram returning ([] : Globals Unit) () = .ok _ := rfl
  have reached := ((Reached.start ready).turn none).turn none
  generalize same : ((Machine.turn _ none).machine.turn none).machine = waiting at reached
  have runs : waiting.status = .running ∧ waiting.step.machine.status = .running ∧
      waiting.given?.map (Value.isSame .empty (.boolean true)) = some true := by
    rw [← same]
    decide +kernel
  obtain ⟨running, goesOn, returns⟩ := runs
  obtain ⟨value, given, same'⟩ := Option.map_eq_some_iff.1 returns
  obtain rfl : value = .boolean true := by
    cases value with
    | boolean truth =>
      have equal : (true == truth) = true := same'
      rw [← eq_of_beq equal]
    | _ => cases same'
  obtain ⟨segments, -, -, -, -, -, answers⟩ := Reached.stack_in_segments reached running
  obtain ⟨between, later, -, -, delivers, stacked⟩ := answers.leaves _ (flow?_of_given given) goesOn
  obtain @⟨call, callee, scope, owner, ended, activities, caller, slot, stop, below, awaits, waits⟩ :=
    delivers
  exact ⟨_, waiting, call, caller, slot, stop, _, ready, same.symm, running, awaits, waits, stacked,
    awaits.slot_answered waits _⟩

end Machine

end TabScript
