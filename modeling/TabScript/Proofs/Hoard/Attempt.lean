import TabScript.Proofs.Hoard.Hoard

/-! A statement runs on both sides.

The attempt at it ends alike in the memory that gives scopes back and in the one that keeps them, and the
run goes on at the same place of the stack. -/

set_option autoImplicit false

namespace TabScript

variable {σ : Type}

namespace Ledger

def since (ledger : Ledger) (world : World σ) : Ledger :=
  { ledger with events := world.events, calls := world.calls }

def AdmitsEnd (ledger : Ledger) : Except Interrupt Flow → Prop
  | .ok flow => ledger.AdmitsFlow flow
  | .error (.suspend closure arguments) => ledger.AdmitsCall closure arguments
  | .error (.fail _) => True

variable {ledger : Ledger}

theorem admitsCall_keeping (scope : ScopeId) {closure : Closure} {arguments : List Value}
    (admitted : ledger.AdmitsCall closure arguments) :
    (ledger.keeping scope).AdmitsCall closure arguments :=
  ⟨.inl admitted.1, fun argument given => admits_keeping scope (admitted.2 argument given)⟩

end Ledger

/-- Memories that belong together do so whatever happened before. -/
theorem Memory.Mirrors.since {ledger : Ledger} {slim full : Memory}
    (mirrors : slim.Mirrors ledger full) (world : World σ) : slim.Mirrors (ledger.since world) full where
  heap_eq := mirrors.heap_eq
  heap := ⟨mirrors.heap.items, mirrors.heap.fresh⟩
  scopes := by
    have closed := mirrors.scopes
    refine ⟨closed.unused, closed.size, closed.global, closed.live, fun known => ?_⟩
    obtain ⟨scope, present, inside⟩ := closed.scope known
    exact ⟨scope, present, inside.parent, inside.outermost, inside.bindings, inside.captured⟩
  mirrors := by
    have stands := mirrors.mirrors
    exact ⟨stands.scope_eq, stands.apart, stands.last, stands.occupied, stands.vacant, stands.nodup⟩

theorem Continuation.Admitted.keeping {ledger : Ledger} (scope : ScopeId)
    {continuation : Continuation} (admitted : continuation.Admitted ledger) :
    continuation.Admitted (ledger.keeping scope) := by
  cases continuation with
  | entering closure arguments => exact Ledger.admitsCall_keeping scope admitted
  | running activity =>
    exact ⟨admitted.1, fun slot done present =>
      Ledger.admits_keeping scope (admitted.2 slot done present)⟩

namespace Evaluation

variable {ledger : Ledger}

/-- What both sides have in common after a statement: they ended alike, their memories belong together,
and what was admitted before still is. -/
structure Ended (ledger left : Ledger) (there here : Except Interrupt Flow × Progress σ) : Prop where
  place : left.place = ledger.place
  count : left.count = ledger.count
  events : left.events = ledger.events
  calls : left.calls = ledger.calls
  flow : there.1 = Flow.relocated left.place here.1
  admitted : left.AdmitsEnd here.1
  mirrors : there.2.Mirrors left here.2
  stays {continuation : Continuation} : continuation.Admitted ledger → continuation.Admitted left

theorem Agree.ended {there here : Except Interrupt Flow × Progress σ}
    (agree : Agree ledger ledger.MeansFlow there here) : Ended ledger ledger there here := by
  cases agree with
  | ok same mirrors =>
    exact ⟨rfl, rfl, rfl, rfl, congrArg Except.ok same.1, same.2, mirrors, id⟩
  | fail fault mirrors => exact ⟨rfl, rfl, rfl, rfl, rfl, trivial, mirrors, id⟩
  | suspend admitted mirrors => exact ⟨rfl, rfl, rfl, rfl, rfl, admitted, mirrors, id⟩

theorem ended_exec (surroundings : Surroundings σ) (live : ledger.live surroundings.scope)
    (node : Node) {before after : Progress σ} (mirrors : before.Mirrors ledger after) :
    ∃ left, Ended ledger left (exec (surroundings.relocate ledger.place) node before)
      (exec surroundings node after) := by
  by_cases defines : ∃ span name parameters body, node = .definition span name parameters body
  · obtain ⟨span, name, parameters, body, rfl⟩ := defines
    have agree := agree_define live name parameters body mirrors
    refine ⟨ledger.keeping surroundings.scope, ?_⟩
    simp only [exec, bind_apply]
    generalize define (surroundings.relocate ledger.place) name parameters body before = there
      at agree ⊢
    generalize define surroundings name parameters body after = here at agree ⊢
    cases agree with
    | ok same mirrors =>
      exact ⟨rfl, rfl, rfl, rfl, rfl, trivial, mirrors, .keeping _⟩
    | fail fault mirrors => exact ⟨rfl, rfl, rfl, rfl, rfl, trivial, mirrors, .keeping _⟩
    | suspend admitted mirrors => exact ⟨rfl, rfl, rfl, rfl, rfl, admitted, mirrors, .keeping _⟩
  · have plain : ∀ span name parameters body, node ≠ .definition span name parameters body :=
      fun span name parameters body same => defines ⟨span, name, parameters, body, same⟩
    exact ⟨ledger, (alike_exec live node plain before after mirrors).ended⟩

end Evaluation

namespace Stack

theorem proceed_relocate (place : ScopeId → ScopeId) (waiting : Activity) (rest : Stack)
    (flow : Except Interrupt Flow) :
    proceed (waiting.relocate place) (relocate place rest) (Flow.relocated place flow) =
      (proceed waiting rest flow).map (relocate place) := by
  rcases flow with (fault | ⟨closure, arguments⟩) | (_ | inner | value)
  · rfl
  · rfl
  · exact congrArg some (resume_relocate place waiting rest)
  · simp only [Flow.relocated, Flow.relocate, proceed, resume_relocate, Option.map_some,
      List.map_cons, Continuation.relocate]
  · have left := unwind_relocate place (.running waiting :: rest)
    simp only [List.map_cons, Continuation.relocate] at left
    simp only [Flow.relocated, Flow.relocate, proceed, left, Option.map_map]
    congr 1
    funext left
    exact deliver_relocate place value left.2

theorem failure_relocated (place : ScopeId → ScopeId) (span : Span) (flow : Except Interrupt Flow) :
    failure span (Flow.relocated place flow) = failure span flow := by
  rcases flow with (fault | ⟨closure, arguments⟩) | flow <;> rfl

theorem admitted_proceed {ledger : Ledger} {waiting : Activity} {rest stack : Stack}
    {ended : Except Interrupt Flow} (first : (Continuation.running waiting).Admitted ledger)
    (admitted : ledger.AdmitsEnd ended) (below : ∀ continuation ∈ rest, continuation.Admitted ledger)
    (goes : proceed waiting rest ended = some stack) :
    ∀ continuation ∈ stack, continuation.Admitted ledger := by
  refine forall_proceed first below (fun left remains => ?_) ?_ ?_ ?_ goes
  · obtain ⟨_, -, rfl⟩ := Activity.next?_eq_some remains
    exact ⟨first.1, Replay.all_fresh⟩
  · rintro inner rfl
    exact admitted
  · rintro value rfl continuation known
    exact known.deliver admitted
  · rintro closure arguments rfl
    exact admitted

end Stack

namespace Abreast

variable {program : List Node} {ledger left : Ledger} {slim full : Memory}
  {segments : List Segment}

theorem ended (abreast : Abreast σ program ledger slim full segments) {world : World σ}
    {there here : Except Interrupt Flow × Progress σ}
    (ended : Evaluation.Ended (ledger.since world) left there here) :
    Abreast σ program left there.2.memory here.2.memory segments where
  memory := ended.mirrors.memory
  fixed := by
    rw [ended.place]
    exact abreast.fixed
  admitted := fun continuation inside => ended.stays (abreast.admitted continuation inside)
  shape := abreast.shape
  distinct := abreast.distinct
  outside := abreast.outside

theorem returned {owner : Option Call} {scope : ScopeId} {activity : Activity} {below : List Activity}
    {lower later : List Segment} {replay : Replay} {value : Value}
    (abreast : Abreast σ program ledger slim full (.active owner scope (activity :: below) :: lower))
    (admitted : ledger.Admits value)
    (passes : Segment.Passes σ (.active owner scope (activity :: below) :: lower) [.returned value] later)
    (shape : Segment.Shape σ program none later)
    (goes : Stack.proceed { activity with replay } (below.map Continuation.running ++ Stack.join lower)
      (.ok (.leave value)) = some (Stack.join later)) :
    ∃ last : Ledger, last.place = ledger.place ∧
      Abreast σ program last
        (Stack.vacate Memory.release slim
          (Stack.relocate ledger.place (.running { activity with replay } ::
            (below.map Continuation.running ++ Stack.join lower)))
          (.ok (.leave (value.relocate ledger.place))))
        full later := by
  obtain ⟨stand, -, -⟩ := abreast.shape.top
  change (Stack.unwind (.running activity :: _)).map _ = _ at goes
  cases owner with
  | none =>
    cases abreast.shape with
    | program =>
      -- nothing is left of the program for a return to go on with
      have lost := Segment.unwind_of_program stand
      simp only [Stack.join, List.flatMap_nil, List.append_nil] at goes
      rw [List.map_cons] at lost
      rw [lost] at goes
      cases goes
  | some call =>
    have found := Segment.unwind_of_stand stand (Stack.join lower)
    have away := Stack.unwind_relocate ledger.place (.running activity ::
      (below.map Continuation.running ++ Stack.join lower))
    rw [List.map_cons, List.cons_append] at found
    rw [found] at away
    rw [found, Option.map_some, Option.some.injEq] at goes
    obtain ⟨last, place, gone⟩ := abreast.leave admitted passes shape goes.symm
    change Stack.unwind (Stack.relocate ledger.place (.running { activity with replay } ::
      (below.map Continuation.running ++ Stack.join lower))) = _ at away
    refine ⟨last, place, ?_⟩
    simp only [Stack.vacate, away, Option.map_some, Stack.deliver_relocate, goes]
    exact gone

/-- Both sides go on with the same stack after a statement. -/
theorem proceed {owner : Option Call} {scope : ScopeId} {activity : Activity} {below : List Activity}
    {lower : List Segment} {world : World σ} {node : Node}
    (abreast : Abreast σ program ledger slim full
      (.active owner scope (activity :: below) :: lower))
    (current : activity.current? = some node) {surroundings : Surroundings σ}
    (inside : surroundings.scope = activity.scope) {before : Progress σ}
    (start : before.replay = activity.replay.rewind)
    {there : Except Interrupt Flow × Progress σ}
    (ended : Evaluation.Ended (ledger.since world) left there
      (Evaluation.exec surroundings node before))
    (stack : Stack)
    (goes : Stack.proceed
      { activity with replay := (Evaluation.exec surroundings node before).2.replay }
      (below.map Continuation.running ++ Stack.join lower)
      (Evaluation.exec surroundings node before).1 = some stack) :
    ∃ (last : Ledger) (later : List Segment), last.place = ledger.place ∧ stack = Stack.join later ∧
      Abreast σ program last
        (Stack.vacate Memory.release there.2.memory
          (Stack.relocate ledger.place (.running
              { activity with replay := (Evaluation.exec surroundings node before).2.replay } ::
            (below.map Continuation.running ++ Stack.join lower))) there.1)
        (Evaluation.exec surroundings node before).2.memory later := by
  have proceeds := abreast.shape.proceed current inside start
  have abreast' := abreast.ended ended
  have place : left.place = ledger.place := ended.place
  have flow := ended.flow
  have admitted := ended.admitted
  rw [goes] at proceeds
  obtain ⟨later, rfl, shape, passes⟩ := proceeds
  have live : left.live activity.scope := (abreast'.admitted (.running activity) List.mem_cons_self).1
  have waits : Continuation.Admitted left
      (.running { activity with replay := (Evaluation.exec surroundings node before).2.replay }) :=
    ⟨live, ended.mirrors.admitted⟩
  have known := Stack.admitted_proceed waits admitted
    (fun continuation there => abreast'.admitted continuation (List.mem_cons_of_mem _ there)) goes
  rcases reached : Evaluation.exec surroundings node before with ⟨flow', after⟩
  rw [reached] at goes passes flow admitted abreast'
  rw [flow]
  -- only a return leaves a scope
  rcases flow' with (fault | ⟨closure, arguments⟩) | (_ | inner | value)
  · cases goes
  · exact ⟨left, later, place, rfl, abreast'.stay passes.scopes shape known⟩
  · exact ⟨left, later, place, rfl, abreast'.stay passes.scopes shape known⟩
  · exact ⟨left, later, place, rfl, abreast'.stay passes.scopes shape known⟩
  · obtain ⟨last, place', gone⟩ := abreast'.returned admitted passes shape goes
    rw [place] at place' gone
    exact ⟨last, later, place', rfl, place ▸ gone⟩

end Abreast

end TabScript
