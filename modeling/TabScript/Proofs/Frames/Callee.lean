import TabScript.Proofs.Frames.Lasting
import TabScript.Proofs.Frames.Standing

/-! What a call can write to.

From the moment when a statement asks for a call to the moment when it gets the result, statements run for
the call and for the calls that it makes. They bind names in scopes that were opened since. -/

set_option autoImplicit false

namespace TabScript

variable {σ : Type}

namespace Machine

def asked? (machine : Machine σ) : Option Call :=
  match machine.flow? with
  | some (.error (.suspend closure arguments)) => some ⟨closure, arguments⟩
  | _ => none

/-- The states of a run from the moment on when a call was asked for, as long as it lasts. They come with
the calls that were made since, the innermost first and the call itself last, and with the scopes that have
been there all the time. -/
inductive During (start : Machine σ) (call : Call) :
    Machine σ → List Call → (ScopeId → Prop) → Prop where
  | asked : During start call start [call] fun id => (start.memory.scopes.scope? id).isSome
  | turn {machine : Machine σ} {since : List Call} {there : ScopeId → Prop} (limit : Option Nat)
    (before : During start call machine since there)
    (running : (machine.turn limit).machine.status = .running)
    (lasts : Passage.Lasts since machine.passages) :
    During start call (machine.turn limit).machine (machine.passages.foldl Passage.follow since)
      fun id => there id ∧ ((machine.turn limit).machine.memory.scopes.scope? id).isSome
  | on {machine : Machine σ} {since : List Call} {there : ScopeId → Prop} (kind : EventKind)
    (before : During start call machine since there) :
    During start call (machine.on kind) since there
  | load {machine : Machine σ} {since : List Call} {there : ScopeId → Prop} (kinds : List EventKind)
    (before : During start call machine since there) :
    During start call (machine.load kinds).1 since there

/-- In the next step the last of the calls hands its result to the statement that asked for it, with this
memory. Either its body was done, and it is left on the way to the next statement, which is the one that
asked; or a statement of it returns. -/
inductive Delivers (machine : Machine σ) (since : List Call) : Memory → Prop where
  | ends {before : List Passage} {value : Value}
    (way : machine.settled.passages = before ++ [.returned value])
    (lasts : Passage.Lasts since before)
    (left : machine.settled.passages.foldl Passage.follow since = []) :
    Delivers machine since machine.settled.memory
  | returns {value : Value} (leaves : machine.flow? = some (.ok (.leave value)))
    (lasts : Passage.Lasts since machine.settled.passages)
    (left : machine.passages.foldl Passage.follow since = []) :
    Delivers machine since machine.step.machine.memory

/-- While a call lasts, the stack below it stays, the scopes of calls above it are new, and the scopes that
have been there all the time are as they were. Among these are the global scope and those of the calls
below. -/
structure Encloses (program : List Node) (start : Machine σ) (base : List Segment) (machine : Machine σ)
    (since : List Call) (there : ScopeId → Prop) : Prop where
  split : ∃ above, machine.stack = Stack.join (above ++ base) ∧
    Segment.Shape σ program none (above ++ base) ∧ above.map Segment.call? = since.map some ∧
    ∀ scope ∈ above.filterMap Segment.opened?, ¬there scope
  same {id : ScopeId} : there id → (machine.memory.scopes.scope? id).isSome ∧
    machine.memory.scopes.face? id = start.memory.scopes.face? id
  base {id : ScopeId} : id = Arena.global ∨ id ∈ base.filterMap Segment.opened? → there id

end Machine

theorem Segment.Ready.stack {program : List Node} {settled : Settled} {segments : List Segment}
    (ready : Ready σ program settled.next segments) :
    settled.stack = Stack.join segments ∧ Shape σ program none segments := by
  unfold Settled.stack
  generalize settled.next = next at ready
  cases ready with
  | spent => exact ⟨rfl, .program (.program rfl) (by simp [Activity.Wait])⟩
  | statement current shape => exact ⟨rfl, shape⟩

theorem Memory.Carries.stands_opened {program : List Node} {memory : Memory} {segments : List Segment}
    (carries : memory.Carries (Stack.join segments)) (shape : Segment.Shape σ program none segments)
    {id : ScopeId} (known : id = Arena.global ∨ id ∈ segments.filterMap Segment.opened?) :
    (memory.scopes.scope? id).isSome := by
  rcases known with rfl | opened
  · exact carries.stands_global
  · obtain ⟨activity, inside, rfl⟩ := shape.opened_mem id opened
    exact carries.stands inside

namespace Machine

variable {machine : Machine σ}

theorem flow?_of_asked {call : Call} (asks : machine.asked? = some call) :
    machine.flow? = some (.error (.suspend call.closure call.arguments)) := by
  unfold asked? at asks
  split at asks
  · rename_i closure arguments flow
    cases asks
    exact flow
  · cases asks

theorem next_of_flow? {flow : Except Interrupt Flow} (flows : machine.flow? = some flow) :
    ∃ activity node rest, machine.settled.next = some (activity, node, rest) ∧
      (machine.attempt machine.settled.memory activity node).1 = flow := by
  obtain ⟨⟨activity, node, rest⟩, next, attempted⟩ := Option.map_eq_some_iff.1 flows
  exact ⟨activity, node, rest, next, attempted⟩

theorem turn_of_running {limit : Option Nat} (goesOn : (machine.turn limit).machine.status = .running) :
    machine.turn limit = machine.step ∧ machine.status = .running := by
  unfold turn at goesOn ⊢
  split at goesOn
  · cases goesOn
  · rename_i within
    rw [if_neg within]
    exact ⟨rfl, status_of_step goesOn⟩

theorem opened_passages (machine : Machine σ) :
    machine.passages.filterMap Passage.opened? = machine.settled.opened := by
  have quiet : ∀ flow : Except Interrupt Flow, (Passage.ofFlow flow).filterMap Passage.opened? = [] := by
    rintro ((fault | ⟨closure, arguments⟩) | (_ | inner | value)) <;> rfl
  unfold passages
  cases machine.flow? with
  | none => simp [Settled.opened]
  | some flow => simp [Settled.opened, quiet]

theorem result_of_next (running : machine.status = .running) {activity : Activity} {node : Node}
    {rest : Stack} (next : machine.settled.next = some (activity, node, rest)) :
    machine.step.result ≠ .ok none := by
  simp only [step_of_next running next]
  split <;> exact fun impossible => by cases impossible

theorem next_of_goesOn (goesOn : machine.step.machine.status = .running) :
    ∃ activity node rest, machine.settled.next = some (activity, node, rest) := by
  cases next : machine.settled.next with
  | some upcoming => exact ⟨upcoming.1, upcoming.2.1, upcoming.2.2, rfl⟩
  | none =>
    rw [step_eq (status_of_step goesOn), next] at goesOn
    cases goesOn

theorem stack_of_asked (running : machine.status = .running) {call : Call}
    (asks : machine.asked? = some call) :
    ∃ rest, machine.step.machine.stack = .entering call.closure call.arguments :: rest := by
  obtain ⟨activity, node, rest, next, attempted⟩ := next_of_flow? (flow?_of_asked asks)
  simp only [step_of_next running next, attempted, Stack.proceed]
  exact ⟨_, rfl⟩

theorem Encloses.goesOn_of_leave {program : List Node} {start : Machine σ} {base : List Segment}
    {since : List Call} {there : ScopeId → Prop} (encloses : Encloses program start base machine since there)
    (running : machine.status = .running) (lasts : Passage.Lasts since machine.settled.passages)
    {value : Value} (leaves : machine.flow? = some (.ok (.leave value))) :
    machine.step.machine.status = .running := by
  obtain ⟨above, stacked, shape, named, -⟩ := encloses.split
  obtain ⟨activity, node, rest, next, -⟩ := next_of_flow? leaves
  have goes := advances shape stacked running
  unfold Advances at goes
  cases result : machine.step.result with
  | ok info =>
    cases info with
    | none => exact absurd result (result_of_next running next)
    | some info =>
      rw [result] at goes
      exact goes.1
  | error fault =>
    -- a return fails outside of all calls only, but here some are left
    rw [result] at goes
    obtain ⟨-, failed | ⟨_, _, _, _, -, -, passes⟩⟩ := goes
    · rw [leaves] at failed
      cases failed
    · obtain ⟨kept, outside, names, -⟩ := passes.lasting named lasts
      obtain ⟨top, others, call, rfl, owned⟩ := Segment.first_of_named names lasts.at_end
      obtain ⟨rfl, -⟩ := List.cons.inj outside
      cases owned

section
variable {program : Block} {start : Machine σ} {base : List Segment} {calls since : List Call}
  {there : ScopeId → Prop} (encloses : Encloses program.statements start base machine since there)
  (reached : Reached program machine calls) (running : machine.status = .running)
include encloses reached running

theorem Encloses.not_opened {id : ScopeId} (opened : id ∈ machine.settled.opened) : ¬there id := by
  intro known
  obtain ⟨above, stacked, shape, -⟩ := encloses.split
  have carries := reached.carries running
  unfold settled at opened
  rw [stacked] at carries opened
  have present := (encloses.same known).1
  rw [carries.opened shape id opened] at present
  cases present

theorem Encloses.same_settled {id : ScopeId} (known : there id)
    (present : (machine.settled.memory.scopes.scope? id).isSome) :
    machine.settled.memory.scopes.face? id = start.memory.scopes.face? id := by
  have spares := machine.memory.spares_settleWith machine.stack
  have apart : id ∉ machine.settled.opened := fun opened =>
    encloses.not_opened reached running opened known
  exact (spares id apart present).trans (encloses.same known).2

/-- On the way to the next statement calls come and go above, and nothing changes below. -/
theorem Encloses.settle (lasts : Passage.Lasts since machine.settled.passages) :
    ∃ above, Segment.Ready σ program.statements machine.settled.next (above ++ base) ∧
      above.map Segment.call? = (machine.settled.passages.foldl Passage.follow since).map some ∧
      ∀ scope ∈ above.filterMap Segment.opened?, ¬there scope := by
  obtain ⟨above, stacked, shape, named, new⟩ := encloses.split
  obtain ⟨later, passes, ready⟩ := settles shape stacked
  obtain ⟨kept, rfl, names, opened⟩ := passes.lasting named lasts
  refine ⟨kept, ready, names, fun scope inside => ?_⟩
  rcases opened scope inside with old | entered
  · exact new scope old
  · exact encloses.not_opened reached running entered

theorem Encloses.elsewhere (lasts : Passage.Lasts since machine.settled.passages) {activity : Activity}
    {node : Node} {rest : Stack} (next : machine.settled.next = some (activity, node, rest)) :
    ¬there activity.scope := by
  obtain ⟨above, ready, names, new⟩ := encloses.settle reached running lasts
  rw [next] at ready
  generalize stacked : above ++ base = segments at ready
  obtain ⟨top, others, call, rfl, owned⟩ := Segment.first_of_named names lasts.at_end
  cases ready with
  | @statement owner scope _ _ below lower current shape =>
    cases stacked
    obtain rfl : owner = some call := owned
    obtain ⟨stand, -, -⟩ := shape.top
    rw [stand.fits.scope_eq]
    exact new scope List.mem_cons_self

theorem Encloses.same_step (lasts : Passage.Lasts since machine.settled.passages) {activity : Activity}
    {node : Node} {rest : Stack} (next : machine.settled.next = some (activity, node, rest))
    {id : ScopeId} (known : there id)
    (present : (machine.step.machine.memory.scopes.scope? id).isSome) :
    machine.step.machine.memory.scopes.face? id = start.memory.scopes.face? id := by
  have spares := spares_step running next
  have apart : id ∉ [activity.scope] := by
    intro inside
    rw [List.mem_singleton] at inside
    exact encloses.elsewhere reached running lasts next (inside ▸ known)
  have same := spares id apart present
  have before : (machine.settled.memory.scopes.scope? id).isSome := by
    rw [← Arena.isSome_face?, ← same, Arena.isSome_face?]
    exact present
  exact same.trans (encloses.same_settled reached running known before)

theorem Encloses.step (goesOn : machine.step.machine.status = .running)
    (lasts : Passage.Lasts since machine.passages)
    (after : Reached program machine.step.machine (machine.passages.foldl Passage.follow calls)) :
    Encloses program.statements start base machine.step.machine
      (machine.passages.foldl Passage.follow since)
      fun id => there id ∧ (machine.step.machine.memory.scopes.scope? id).isSome := by
  obtain ⟨above, stacked, shape, named, new⟩ := encloses.split
  obtain ⟨later, stacked', shape', passes⟩ := (advances shape stacked running).goesOn goesOn
  obtain ⟨kept, rfl, names, opened⟩ := passes.lasting named lasts
  have carries := after.carries goesOn
  rw [stacked'] at carries
  refine ⟨⟨kept, stacked', shape', names, fun scope inside => ?_⟩, ?_, ?_⟩
  · rintro ⟨known, -⟩
    rcases opened scope inside with old | entered
    · exact new scope old known
    · rw [opened_passages] at entered
      exact encloses.not_opened reached running entered known
  · rintro id ⟨known, present⟩
    obtain ⟨activity, node, rest, next⟩ := next_of_goesOn goesOn
    exact ⟨present, encloses.same_step reached running lasts.of_append next known present⟩
  · intro id known
    refine ⟨encloses.base known, carries.stands_opened shape' (known.imp_right fun opened => ?_)⟩
    rw [List.filterMap_append]
    exact List.mem_append_right _ opened

theorem Encloses.delivers {memory : Memory} (delivers : machine.Delivers since memory) :
    (∀ id, there id → (memory.scopes.scope? id).isSome →
      memory.scopes.face? id = start.memory.scopes.face? id) ∧
    ∀ id, id = Arena.global ∨ id ∈ base.filterMap Segment.opened? → (memory.scopes.scope? id).isSome := by
  obtain ⟨above, stacked, shape, named, -⟩ := encloses.split
  cases delivers with
  | @ends before value way lasts left =>
    constructor
    · intro id known present
      exact encloses.same_settled reached running known present
    · intro id known
      obtain ⟨later, passes, ready⟩ := settles shape stacked
      obtain ⟨joined, shape'⟩ := ready.stack
      have carries := reached.carries_settled running
      rw [joined] at carries
      rw [way] at passes left
      -- all calls above have been left, so the scopes of the stack are those below
      rw [← passes.all_returned named lasts left] at known
      exact carries.stands_opened shape' known
  | @returns value leaves lasts left =>
    constructor
    · intro id known present
      obtain ⟨activity, node, rest, next, -⟩ := next_of_flow? leaves
      exact encloses.same_step reached running lasts next known present
    · intro id known
      have goesOn := encloses.goesOn_of_leave running lasts leaves
      obtain ⟨later, stacked', shape', passes⟩ := (advances shape stacked running).goesOn goesOn
      have way : machine.passages = machine.settled.passages ++ [.returned value] := by
        simp [passages, leaves, Passage.ofFlow]
      have carries := (reached.turn none).carries goesOn
      change machine.step.machine.memory.Carries machine.step.machine.stack at carries
      rw [stacked'] at carries
      rw [way] at passes left
      rw [← passes.all_returned named lasts left] at known
      exact carries.stands_opened shape' known

end

theorem Reached.encloses {program : Block} {calls : List Call} (reached : Reached program machine calls)
    {call : Call} (asks : machine.asked? = some call) {limit : Option Nat}
    (goesOn : (machine.turn limit).machine.status = .running) :
    ∃ base, (machine.turn limit).machine.stack = Stack.join (.pending call :: base) ∧
      Segment.Shape σ program.statements (some call) base ∧
      Encloses program.statements (machine.turn limit).machine base (machine.turn limit).machine [call]
        fun id => ((machine.turn limit).machine.memory.scopes.scope? id).isSome := by
  obtain ⟨same, running⟩ := turn_of_running goesOn
  have after := reached.turn limit
  have carries := after.carries goesOn
  obtain ⟨segments, stacked, -, shape⟩ := after.shape goesOn
  obtain ⟨rest, top⟩ := stack_of_asked running asks
  rw [← same] at top
  obtain ⟨base, rfl, -⟩ := shape.of_join_entering (stacked.symm.trans top)
  rw [stacked] at carries
  have callers : Segment.Shape σ program.statements (some call) base := by
    cases shape with
    | pending _ rest => exact rest
  refine ⟨base, stacked, callers, ⟨[.pending call], stacked, shape, rfl, ?_⟩, ?_, ?_⟩
  · intro scope impossible
    cases impossible
  · intro id known
    exact ⟨known, rfl⟩
  · intro id known
    exact carries.stands_opened shape known

theorem During.encloses {program : Block} {start : Machine σ} {base : List Segment} {call : Call}
    {calls since : List Call} {there : ScopeId → Prop} (begun : Reached program start calls)
    (running : start.status = .running)
    (encloses : Encloses program.statements start base start [call]
      fun id => (start.memory.scopes.scope? id).isSome)
    (during : start.During call machine since there) :
    (∃ calls, Reached program machine calls) ∧ machine.status = .running ∧
      Encloses program.statements start base machine since there := by
  induction during with
  | asked => exact ⟨⟨calls, begun⟩, running, encloses⟩
  | turn limit before goesOn lasts ih =>
    obtain ⟨⟨calls, reached⟩, running, encloses⟩ := ih
    obtain ⟨same, -⟩ := turn_of_running goesOn
    have after := reached.turn limit
    rw [same] at goesOn after ⊢
    exact ⟨⟨_, after⟩, goesOn, encloses.step reached running goesOn lasts after⟩
  | on kind before ih =>
    obtain ⟨⟨calls, reached⟩, running, encloses⟩ := ih
    exact ⟨⟨calls, reached.on kind⟩, running, encloses.split, encloses.same, encloses.base⟩
  | load kinds before ih =>
    obtain ⟨⟨calls, reached⟩, running, encloses⟩ := ih
    exact ⟨⟨calls, reached.load kinds⟩, running, encloses.split, encloses.same, encloses.base⟩

theorem During.some_left {start : Machine σ} {call : Call} {since : List Call} {there : ScopeId → Prop}
    (during : start.During call machine since there) : since ≠ [] := by
  induction during with
  | asked => simp
  | turn limit before goesOn lasts ih => exact lasts.at_end
  | on kind before ih => exact ih
  | load kinds before ih => exact ih

theorem During.lasts_or_delivers {program : Block} {start : Machine σ} {call : Call}
    {calls since : List Call} {there : ScopeId → Prop} (reached : Reached program machine calls)
    (running : machine.status = .running) (during : start.During call machine since there) :
    Passage.Lasts since machine.passages ∨ ∃ memory, machine.Delivers since memory := by
  -- the call may end on the way to the next statement or with that statement
  by_cases settles : Passage.Lasts since machine.settled.passages
  · cases flows : machine.flow? with
    | none =>
      refine .inl ?_
      simpa [passages, flows] using settles
    | some flow =>
      have way : machine.passages = machine.settled.passages ++ Passage.ofFlow flow := by
        simp [passages, flows]
      rw [way]
      rcases flow with (fault | ⟨closure, arguments⟩) | (_ | inner | value)
      case ok.leave =>
        by_cases left : (machine.settled.passages.foldl Passage.follow since).tail = []
        · refine .inr ⟨_, .returns flows settles ?_⟩
          rw [way, List.foldl_append]
          exact left
        · exact .inl (settles.append ⟨settles.at_end, left⟩)
      case error.suspend => exact .inl (settles.append ⟨settles.at_end, List.cons_ne_nil _ _⟩)
      all_goals exact .inl (settles.append settles.at_end)
  · obtain ⟨segments, stacked, -, shape⟩ := reached.shape running
    obtain ⟨before, value, after, way, lasts, left⟩ :=
      Passage.returned_of_not_lasts during.some_left settles
    have settled := way
    unfold Machine.settled at settled
    rw [stacked] at settled
    obtain ⟨rfl, -⟩ := shape.settle_returned Memory.release machine.memory settled
    refine .inr ⟨_, .ends way lasts ?_⟩
    rw [way, List.foldl_append]
    exact left

/-- Whatever runs for a call, when its result is handed over every scope that has been there since the call
was asked for binds the same names to the same values. This is so for the global scope and for the scopes
of all calls that were active then, which are still there. -/
theorem Reached.call_keeps_bindings {program : Block} {calls : List Call}
    (reached : Reached program machine calls) {call : Call} (asks : machine.asked? = some call)
    {limit : Option Nat} (goesOn : (machine.turn limit).machine.status = .running) {last : Machine σ}
    {since : List Call} {there : ScopeId → Prop}
    (during : (machine.turn limit).machine.During call last since there) {memory : Memory}
    (delivers : last.Delivers since memory) :
    (∀ id before after, there id →
      (machine.turn limit).machine.memory.scopes.scope? id = some before →
      memory.scopes.scope? id = some after → after.face = before.face) ∧
    ∀ id, (id = Arena.global ∨
        ∃ activity, .running activity ∈ (machine.turn limit).machine.stack ∧ activity.scope = id) →
      there id ∧ ∃ before after,
        (machine.turn limit).machine.memory.scopes.scope? id = some before ∧
        memory.scopes.scope? id = some after ∧ after.face = before.face := by
  obtain ⟨base, stacked, callers, begins⟩ := reached.encloses asks goesOn
  obtain ⟨⟨calls', reached'⟩, running, encloses⟩ :=
    During.encloses (reached.turn limit) goesOn begins during
  obtain ⟨same, stands⟩ := encloses.delivers reached' running delivers
  have faces : ∀ id before after, there id →
      (machine.turn limit).machine.memory.scopes.scope? id = some before →
      memory.scopes.scope? id = some after → after.face = before.face := by
    intro id before after known stood present
    have kept := same id known (Option.isSome_iff_exists.2 ⟨after, present⟩)
    rw [Arena.face?, Arena.face?, stood, present] at kept
    exact Option.some.inj kept
  refine ⟨faces, fun id place => ?_⟩
  -- an activity of the stack is the program's or belongs to one of the calls below
  have below : id = Arena.global ∨ id ∈ base.filterMap Segment.opened? := by
    rcases place with rfl | ⟨activity, inside, rfl⟩
    · exact .inl rfl
    · rw [stacked] at inside
      rcases List.mem_cons.1 inside with impossible | further
      · cases impossible
      · obtain ⟨activity', same', opened⟩ := callers.scope_mem _ further
        cases same'
        exact opened.symm
  have known := encloses.base below
  obtain ⟨before, stood⟩ := Option.isSome_iff_exists.1 (begins.base below)
  obtain ⟨after, present⟩ := Option.isSome_iff_exists.1 (stands id below)
  exact ⟨known, before, after, stood, present, faces id before after known stood present⟩

def rebinding : Block :=
  .of default [
    .assignment default (.identifier default "x") (.literal default (some (.boolean true))),
    .definition default "f" [] (.of default [
      .assignment default (.identifier default "x") (.literal default (some (.boolean false)))]),
    .call default (.identifier default "f") []]

/-- The name of the program is still bound as it was when the function returns. -/
theorem call_keeps_bindings_rebinding :
    ∃ (machine last : Machine Unit) (calls since : List Call) (call : Call) (there : ScopeId → Prop)
      (memory : Memory), Reached rebinding machine calls ∧ machine.asked? = some call ∧
      (machine.turn none).machine.During call last since there ∧ last.Delivers since memory ∧
      ∃ before after, (machine.turn none).machine.memory.scopes.scope? Arena.global = some before ∧
        memory.scopes.scope? Arena.global = some after ∧ after.face = before.face := by
  have found : ∃ (machine : Machine Unit) (calls : List Call) (asks : machine.asked?.isSome),
      Reached rebinding machine calls ∧ (machine.turn none).machine.status = .running ∧
      ((machine.turn none).machine.turn none).machine.status = .running ∧
      Passage.Lasts [machine.asked?.get asks] (machine.turn none).machine.passages ∧
      ¬Passage.Lasts
        ((machine.turn none).machine.passages.foldl Passage.follow [machine.asked?.get asks])
        ((machine.turn none).machine.turn none).machine.passages := by
    have ready : ofProgram rebinding ([] : Globals Unit) () = .ok _ := rfl
    -- two steps bind the name and the function, and the third asks for the call
    have reached := ((Reached.start ready).turn none).turn none
    exact ⟨_, _, by decide +kernel, reached, by decide +kernel, by decide +kernel, by decide +kernel,
      by decide +kernel⟩
  obtain ⟨machine, calls, asks, reached, goesOn, goesOn', lasts, ends⟩ := found
  have during := During.asked.turn none goesOn' lasts
  have delivers := (during.lasts_or_delivers ((reached.turn none).turn none) goesOn').resolve_left ends
  obtain ⟨memory, delivers⟩ := delivers
  have asked : machine.asked? = some (machine.asked?.get asks) := (Option.some_get asks).symm
  have frames := Reached.call_keeps_bindings reached asked goesOn during delivers
  obtain ⟨-, before, after, stood, present, same⟩ := frames.2 Arena.global (.inl rfl)
  exact ⟨machine, _, calls, _, _, _, memory, reached, asked, during, delivers, before, after, stood,
    present, same⟩

end Machine

end TabScript
