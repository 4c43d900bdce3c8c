import TabScript.Proofs.Refinement.Step
import TabScript.Proofs.Hoard.Safety
import TabScript.Proofs.Observers.Heard

/-! A run of the machine is a run in the direct style.

Step by step, from the last one back to the first, what the direct style would do with the rest of the
program is what the machine did. -/

set_option autoImplicit false

namespace TabScript

variable {σ : Type}

def World.exited (world : World σ) : World σ :=
  { world with
    events := .exit (world.memory.scopes.snapshot world.memory.heap Arena.global) :: world.events }

namespace Direct

/-- How a step that starts with a stack has to end: what is left after it was left before it, and when
nothing is left, this is the end. -/
def Explains (wants : EventKind → Bool) (hosts : Array (HostFunction σ)) (stack : Stack)
    (tally : Tally σ) : Hoard.Outcome σ → Prop
  | .goesOn after => ∀ result, Results wants hosts after.stack ⟨after.world, after.executed⟩ result →
      Results wants hosts stack tally result
  | .stops after => Results wants hosts stack tally (.ok (), ⟨after.world.exited, after.executed⟩)
  | .fails fault after =>
    Results wants hosts stack tally (.error fault, ⟨after.world, after.executed⟩)

variable (wants : EventKind → Bool) (hosts : Array (HostFunction σ)) {program : List Node}

variable {wants hosts} in
theorem Explains.before {stack earlier : Stack} {tally old : Tally σ} {outcome : Hoard.Outcome σ}
    (explains : Explains wants hosts stack tally outcome)
    (part : ∀ result, Results wants hosts stack tally result → Results wants hosts earlier old result) :
    Explains wants hosts earlier old outcome := by
  cases outcome with
  | goesOn after => exact fun result reached => part result (explains result reached)
  | stops after => exact part _ explains
  | fails fault after => exact part _ explains

theorem explains_attempt {owner : Option Call} {scope : ScopeId} {activity : Activity}
    {below : List Activity} {lower : List Segment} {node : Node}
    (shape : Segment.Shape σ program none (.active owner scope (activity :: below) :: lower))
    (current : activity.current? = some node) (hoard : Hoard σ) (world : World σ) :
    Explains wants hosts
      (.running activity :: (below.map Continuation.running ++ Stack.join lower))
      ⟨world, hoard.executed⟩
      (hoard.conclude activity node (below.map Continuation.running ++ Stack.join lower)
        (Hoard.attempt wants hosts world activity node)) := by
  obtain ⟨stand, idle, -⟩ := shape.top
  have proper : activity.sequel = .return → ∃ nodes, activity.work = .statements nodes :=
    fun ends => (stand.of_return ends).2.2
  have sound : activity.replay.rewind.Sound := stand.fits.sound.rewind
  have keeps := Evaluation.orderly_exec ⟨activity.scope, wants, hosts⟩ node
    (world.progress activity.replay.rewind) sound (idle activity List.mem_cons_self)
  generalize attempt : Hoard.attempt wants hosts world activity node = reached
  change Evaluation.Keeps false _ (Hoard.attempt wants hosts world activity node) at keeps
  rw [attempt] at keeps
  -- a statement that suspends has a slot that waits, so the answer marks it as one to be resumed
  have answered : ∀ closure arguments, reached.1 = .error (.suspend closure arguments) →
      ∀ value, (reached.2.replay.deliver value).resumed = true := by
    intro closure arguments suspends value
    obtain ⟨flow, after⟩ := reached
    obtain rfl : flow = .error (.suspend closure arguments) := suspends
    obtain ⟨-, extends_, waiting⟩ := keeps
    obtain ⟨⟨slot, stop⟩, asked⟩ := Option.isSome_iff_exists.1 (waiting rfl)
    rw [extends_.sound.deliver_eq asked]
  have nested : ∀ inner, reached.1 = .ok (.enter inner) →
      inner.replay = .fresh ∧ inner.sequel ≠ .return := by
    intro inner enters
    obtain ⟨flow, after⟩ := reached
    obtain rfl : flow = .ok (.enter inner) := enters
    obtain ⟨-, fresh, stays, -⟩ := Evaluation.exec_enter attempt
    exact ⟨fresh, stays⟩
  unfold Hoard.conclude
  cases goes : Stack.proceed { activity with replay := reached.2.replay }
      (below.map Continuation.running ++ Stack.join lower) reached.1 with
  | none => exact results_failed current attempt goes
  | some stack =>
    exact fun result after => results_proceed current attempt proper answered nested goes after

theorem explains_step {hoard : Hoard σ} {segments : List Segment}
    (shape : Segment.Shape σ program none segments) (joined : hoard.stack = Stack.join segments) :
    Explains wants hosts hoard.stack ⟨hoard.world, hoard.executed⟩ (hoard.step wants hosts) := by
  obtain ⟨later, -, ready⟩ := shape.settle Memory.keep hoard.world.memory
  rw [← joined] at ready
  change Segment.Ready σ program hoard.settled.next later at ready
  have settle : ∀ result,
      Results wants hosts hoard.settled.stack ⟨hoard.front, hoard.executed⟩ result →
        Results wants hosts hoard.stack ⟨hoard.world, hoard.executed⟩ result := fun result =>
    results_settle hoard.world.memory hoard.stack
  unfold Hoard.step
  cases next : hoard.settled.next with
  | none =>
    apply settle
    refine ⟨0, ?_⟩
    simp only [Settled.stack, next]
    rfl
  | some found =>
    obtain ⟨activity, node, rest⟩ := found
    rw [next] at ready
    cases ready with
    | statement current shape =>
      simp only [Settled.stack, next] at settle
      exact (explains_attempt wants hosts shape current hoard hoard.front).before settle

end Direct

namespace Machine

theorem fixed_step (machine : Machine σ) :
    machine.step.machine.hooks = machine.hooks ∧ machine.step.machine.hosts = machine.hosts := by
  by_cases running : machine.status = .running
  · rw [step_eq running]
    cases machine.settled.next with
    | none => exact ⟨rfl, rfl⟩
    | some found =>
      obtain ⟨activity, node, rest⟩ := found
      simp only [run_eq]
      split <;> exact ⟨rfl, rfl⟩
  · simp only [step, running, if_false]
    exact ⟨trivial, trivial⟩

end Machine

/-- The global bindings of one memory are those of another one, and lead to the same values, but scopes
stand elsewhere: no two of those that can be reached from the global scope stand in one place. -/
structure Memory.Renames (slim : Memory) (place : ScopeId → ScopeId) (full : Memory) : Prop where
  global : place Arena.global = Arena.global
  heap : slim.heap = full.heap.relocate place
  scope_eq {id : ScopeId} : full.Reaches [] (· = Arena.global) (.scope id) →
    slim.scopes.scope? (place id) = (full.scopes.scope? id).map (Scope.relocate place)
  apart {id other : ScopeId} : full.Reaches [] (· = Arena.global) (.scope id) →
    full.Reaches [] (· = Arena.global) (.scope other) → place id = place other → id = other

theorem Memory.Mirrors.renames {ledger : Ledger} {slim full : Memory}
    (mirrors : slim.Mirrors ledger full) (fixed : ledger.place Arena.global = Arena.global) :
    slim.Renames ledger.place full := by
  have known : ∀ id, id = Arena.global → ledger.live id := by
    rintro id rfl
    exact mirrors.scopes.live mirrors.scopes.global
  have live : ∀ id, full.Reaches [] (· = Arena.global) (.scope id) → ledger.live id := fun id reached =>
    mirrors.reaches (fun _ inside => absurd inside List.not_mem_nil) known reached
  exact ⟨fixed, mirrors.heap_eq, fun reached => mirrors.mirrors.scope_eq (live _ reached),
    fun here there => mirrors.mirrors.apart (live _ here) (live _ there)⟩

/-- What a run of the machine and a run in the direct style that began in the same world have in common.
The calls of the host are the same. So are the events if the program came to its end; where it failed,
the events of the statement that failed were never delivered. -/
structure Tells (hooks : List EventKind) (before : World σ) (reaction : Reaction σ Unit)
    (result : Except Fault Unit) (tally : Tally σ) : Prop where
  result_eq : reaction.result = result
  executed : reaction.machine.executed = tally.executed
  host : reaction.machine.host = tally.world.host
  calls : ∃ calls, tally.world.calls = calls ++ before.calls ∧
    reaction.observed.filterMap Observation.call? = calls.reverse
  events : ∃ events, tally.world.events = events ++ before.events ∧
    reaction.observed.filter Observation.isEvent <+: events.reverse.flatMap (Event.deliver hooks) ∧
      (result = .ok () →
        reaction.observed.filter Observation.isEvent = events.reverse.flatMap (Event.deliver hooks))
  memory : result = .ok () → ∃ place : ScopeId → ScopeId,
    reaction.machine.memory.Renames place tally.world.memory

variable {hooks : List EventKind} {start after : World σ}

/-- What a step adds comes before what the rest of the run adds. -/
theorem Tells.before {reaction : Reaction σ Unit} {result : Except Fault Unit} {tally : Tally σ}
    (tells : Tells hooks after reaction result tally) {calls : List HostCall} {events : List Event}
    (grows : start.Grows after calls events) :
    Tells hooks start
      { reaction with
        observed := calls.reverse.map Observation.called ++
          events.reverse.flatMap (Event.deliver hooks) ++ reaction.observed } result tally := by
  obtain ⟨result_eq, executed, host, ⟨called, asked, heard⟩, ⟨emitted, happened, part, whole⟩, memory⟩ :=
    tells
  have first := Observation.filter_deliver hooks events.reverse
  have second := Observation.filter_called calls.reverse
  refine ⟨result_eq, executed, host, ⟨called ++ calls, ?_, ?_⟩, ⟨emitted ++ events, ?_, ?_, ?_⟩, memory⟩
  · rw [asked, grows.calls, List.append_assoc]
  · rw [List.filterMap_append, List.filterMap_append, first.2, second.2, heard, List.append_nil,
      List.reverse_append]
  · rw [happened, grows.events, List.append_assoc]
  · simp only [List.filter_append, first.1, second.1, List.nil_append, List.reverse_append,
      List.flatMap_append]
    exact (List.prefix_append_right_inj _).2 part
  · intro ended
    simp only [List.filter_append, first.1, second.1, List.nil_append, List.reverse_append,
      List.flatMap_append, whole ended]

theorem tells_over {last : Machine σ} {left : Ledger} {executed : Nat}
    (grows : start.Grows after [] []) (fixed : left.place Arena.global = Arena.global)
    (memory : last.memory.Mirrors left after.memory) (host : last.host = after.host)
    (counted : last.executed = executed) :
    Tells hooks start
      ⟨.ok (), last, Event.deliver hooks
        (.exit (after.memory.scopes.snapshot after.memory.heap Arena.global))⟩ (.ok ())
      ⟨after.exited, executed⟩ := by
  have told := Observation.filter_deliver hooks
    [.exit (after.memory.scopes.snapshot after.memory.heap Arena.global)]
  rw [List.flatMap_singleton] at told
  refine ⟨rfl, counted, host, ⟨[], grows.calls, told.2⟩,
    ⟨[.exit (after.memory.scopes.snapshot after.memory.heap Arena.global)], ?_, ?_, fun _ => ?_⟩,
    fun _ => ?_⟩
  · exact congrArg (List.cons _) grows.events
  · simp only [List.reverse_singleton, List.flatMap_singleton, told.1, List.prefix_refl]
  · simp only [List.reverse_singleton, List.flatMap_singleton, told.1]
  · exact ⟨left.place, memory.renames fixed⟩

theorem tells_fails {last : Machine σ} {fault : Fault} {executed : Nat} {calls : List HostCall}
    {events : List Event} (grows : start.Grows after calls events) (host : last.host = after.host)
    (counted : last.executed = executed) :
    Tells hooks start ⟨.error fault, last, calls.reverse.map Observation.called⟩ (.error fault)
      ⟨after, executed⟩ := by
  have told := Observation.filter_called calls.reverse
  refine ⟨rfl, counted, host, ⟨calls, grows.calls, told.2⟩, ⟨events, grows.events, ?_, ?_⟩, ?_⟩
  · rw [told.1]
    exact List.nil_prefix
  · intro impossible
    cases impossible
  · intro impossible
    cases impossible

theorem Tells.front {hoard : Hoard σ} {reaction : Reaction σ Unit} {result : Except Fault Unit}
    {tally : Tally σ} (tells : Tells hooks hoard.front reaction result tally) :
    Tells hooks hoard.world reaction result tally :=
  ⟨tells.result_eq, tells.executed, tells.host, tells.calls, tells.events, tells.memory⟩

/-- A run from any of its states is a run of what is left in the direct style. -/
theorem Machine.Beside.refines {program : List Node} {machine : Machine σ} {hoard : Hoard σ}
    {births : Births} (beside : machine.Beside program hoard births)
    (running : machine.status = .running) {steps : Nat} {reaction : Reaction σ Unit}
    (ran : machine.complete none steps = some reaction) :
    ∃ result tally, Tells machine.hooks hoard.world reaction result tally ∧
      Direct.Results machine.wants machine.hosts hoard.stack ⟨hoard.world, hoard.executed⟩
        (result, tally) := by
  induction steps generalizing machine hoard births reaction with
  | zero => cases ran
  | succ steps ih =>
    obtain ⟨ledger, -, mirrors⟩ := beside.mirrors births.fixes_place
    obtain ⟨segments, joined, abreast⟩ := mirrors.abreast
    have explains := Direct.explains_step machine.wants machine.hosts abreast.shape joined
    have matched := beside.lockstep running (births ++ machine.settled.opened).fixes_place
    have later := beside.step
    have fixed := machine.fixed_step
    rw [Machine.complete] at ran
    simp only [Machine.turn, Machine.exceeds, Bool.false_eq_true, if_false] at ran
    generalize machine.step = first at matched ran later fixed
    generalize hoard.step machine.wants machine.hosts = outcome at matched explains later
    -- both machines take the step; of what is left of the run the induction tells
    cases matched with
    | goesOn stands running mirrors grows =>
      rename_i after left next info calls events
      dsimp only at ran
      obtain ⟨rest, went, rfl⟩ := Option.map_eq_some_iff.1 ran
      have beside' : next.Beside program after (births ++ machine.settled.opened) := later running
      have goes : next.status = .running := running
      obtain ⟨result, tally, tells, results⟩ := ih beside' goes went
      obtain ⟨hooks, hosts⟩ := fixed
      change next.hooks = machine.hooks at hooks
      have wanted : next.wants = machine.wants := by
        funext kind
        simp only [Machine.wants, hooks]
      rw [wanted, show next.hosts = machine.hosts from hosts] at results
      have heard : Tells machine.hooks after.world rest result tally := hooks ▸ tells
      exact ⟨result, tally, (heard.before grows).front, explains _ results⟩
    | stops stands exited global memory grows host executed =>
      cases ran
      exact ⟨_, _, (tells_over grows (stands ▸ global) memory host executed).front, explains⟩
    | fails halted grows host executed =>
      cases ran
      exact ⟨_, _, (tells_fails grows host executed).front, explains⟩

namespace Machine

/-- Nothing is below a program: its end is shown, and nothing can be returned from it. -/
theorem results_program {wants : EventKind → Bool} {hosts : Array (HostFunction σ)}
    {nodes : List Node} {tally : Tally σ} {result : Except Fault Unit × Tally σ}
    (results : Direct.Results wants hosts [.running (.block nodes Arena.global)] tally result) :
    ∃ budget, Direct.program wants hosts budget nodes tally = some result := by
  obtain ⟨budget, reached⟩ := results
  refine ⟨budget + 2, ?_⟩
  have whole : (Direct.follow wants hosts budget [.running (.block nodes Arena.global)] .next).Below
      (Direct.program wants hosts (budget + 2) nodes) := by
    refine (Direct.finish_fresh rfl rfl).bind fun ending => ?_
    cases ending with
    | next => exact .refl _
    | returned value span => exact .refl _
  exact whole _ _ reached

/-- A run of the machine that comes to an end, well or not, is a run in the direct style: with a budget
that is large enough the reference ends with the same result, after as many statements. -/
theorem complete_direct {program : Block} {globals : Globals σ} {host : σ} {start : Machine σ}
    (ready : ofProgram program globals host = .ok start) (kinds : List EventKind) {steps : Nat}
    {reaction : Reaction σ Unit} (ran : (start.load kinds).1.complete none steps = some reaction) :
    ∃ result tally budget,
      Tells kinds ⟨start.memory, host, [], []⟩ reaction result tally ∧
      Direct.program (fun kind => kinds.contains kind) start.hosts budget program.statements
        ⟨⟨start.memory, host, [], []⟩, 0⟩ = some (result, tally) := by
  have shadowed := (Shadowed.start ready).load kinds
  unfold ofProgram at ready
  obtain ⟨⟨memory, hosts⟩, bound, made⟩ := except_bind_ok ready
  cases made
  obtain ⟨result, tally, tells, results⟩ := (shadowed.beside rfl).refines rfl ran
  obtain ⟨budget, reached⟩ := results_program results
  exact ⟨result, tally, budget, tells, reached⟩

def answering : Block :=
  .of default [.definition default "f" [] (.of default [.result default none]),
    .assignment default (.identifier default "x") (.call default (.identifier default "f") [])]

/-- The assignment is attempted twice, before and after the call; it counts once and is shown once. -/
theorem complete_direct_answering :
    ∃ start : Machine Unit, ofProgram answering [] () = .ok start ∧
      ∃ reaction, (start.load [.assign]).1.complete none 6 = some reaction ∧
        (reaction.machine.executed, reaction.observed.length) = (3, 2) ∧
        ∃ result tally budget,
          Tells [.assign] ⟨start.memory, (), [], []⟩ reaction result tally ∧
          Direct.program (fun kind => [EventKind.assign].contains kind) start.hosts budget
            answering.statements ⟨⟨start.memory, (), [], []⟩, 0⟩ = some (result, tally) := by
  obtain ⟨start, ready, ended⟩ : ∃ start : Machine Unit, ofProgram answering [] () = .ok start ∧
      ((start.load [.assign]).1.complete none 6).map
        (fun reaction => (reaction.machine.executed, reaction.observed.length)) = some (3, 2) :=
    ⟨_, rfl, by decide +kernel⟩
  obtain ⟨reaction, ran, counted⟩ := Option.map_eq_some_iff.1 ended
  exact ⟨start, ready, reaction, ran, counted, complete_direct ready [.assign] ran⟩

end Machine

end TabScript
