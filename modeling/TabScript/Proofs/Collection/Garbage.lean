import TabScript.Proofs.Collection.Bounded

/-! What waits to be collected, between any two steps and at the end.

Whatever the global scope leads to stays where it is, so that the collection at the end leaves just that. -/

set_option autoImplicit false

namespace TabScript

variable {σ : Type}

section
variable {ledger : Ledger} {slim full : Memory}

theorem Value.Leads.kept (mirrors : slim.Mirrors ledger full) {id : ScopeId} {moved : Value}
    (leads : moved.Leads slim.heap id) {value : Value} (admitted : ledger.Admits value)
    (same : moved = value.relocate ledger.place) :
    ∃ original, ledger.kept original ∧ ledger.place original = id := by
  induction leads generalizing value with
  | closure home =>
    subst home
    rcases value with _ | _ | _ | _ | _ | ⟨made | _⟩ <;> cases same
    exact ⟨made.scope, admitted, rfl⟩
  | item inside leads ih =>
    rcases value with _ | _ | _ | _ | ref | ⟨_ | _⟩ <;> cases same
    rw [mirrors.heap_eq, Heap.items_relocate] at inside
    obtain ⟨item, here, rfl⟩ := List.mem_map.1 inside
    exact ih (mirrors.heap.items admitted item here) rfl

theorem Memory.Mirrors.needed_stands (mirrors : slim.Mirrors ledger full)
    (fixed : ledger.place Arena.global = Arena.global) {id : ScopeId}
    (needed : slim.scopes.Needed slim.heap [] [] id) :
    ∃ original, ledger.live original ∧ ledger.place original = id := by
  -- a live scope is there with its parent and its bindings, as the other side has them
  have held : ∀ {original : ScopeId} {scope : Scope}, ledger.live original →
      slim.scopes.scope? (ledger.place original) = some scope →
      ∃ closed : Scope, closed.Closed ledger original ∧ scope = closed.relocate ledger.place := by
    intro original scope live present
    obtain ⟨closed, there, inside⟩ := mirrors.scopes.scope live
    rw [mirrors.mirrors.scope_eq live, there] at present
    cases present
    exact ⟨closed, inside, rfl⟩
  induction needed with
  | global => exact ⟨Arena.global, mirrors.scopes.live mirrors.scopes.global, fixed⟩
  | root given => cases given
  | value given => cases given
  | parent needed present around ih =>
    obtain ⟨inner, live, rfl⟩ := ih
    obtain ⟨closed, inside, rfl⟩ := held live present
    obtain ⟨outer, parent, rfl⟩ := Option.map_eq_some_iff.1 around
    exact ⟨outer, mirrors.scopes.live (inside.parent parent).1, rfl⟩
  | binding needed present bound leads ih =>
    obtain ⟨holder, live, rfl⟩ := ih
    obtain ⟨closed, inside, rfl⟩ := held live present
    obtain ⟨original, here, rfl⟩ := List.mem_map.1 bound
    obtain ⟨found, kept, place⟩ := leads.kept mirrors (inside.bindings original here) rfl
    exact ⟨found, mirrors.scopes.live kept, place⟩

end

namespace Arena

variable {arena : Arena} {heap : Heap} {roots : List ScopeId} {values : List Value}

theorem needed_collect_iff {id : ScopeId} :
    (arena.collect heap roots values).2.Needed heap roots values id ↔
      arena.Needed heap roots values id := by
  have stays : ∀ {id : ScopeId} {scope : Scope}, arena.Needed heap roots values id →
      arena.scope? id = some scope → (arena.collect heap roots values).2.scope? id = some scope := by
    intro id scope needed present
    rcases arena.scope?_collect heap roots values id with ⟨-, kept⟩ | ⟨needless, -⟩
    · exact kept.trans present
    · exact absurd needed needless
  have stood : ∀ {id : ScopeId} {scope : Scope},
      (arena.collect heap roots values).2.scope? id = some scope → arena.scope? id = some scope := by
    intro id scope present
    rcases arena.scope?_collect heap roots values id with ⟨-, kept⟩ | ⟨-, gone⟩
    · exact kept.symm.trans present
    · cases gone.symm.trans present
  constructor
  · intro needed
    induction needed with
    | global => exact .global
    | root given => exact .root given
    | value given leads => exact .value given leads
    | parent _ present around ih => exact .parent ih (stood present) around
    | binding _ present inside leads ih => exact .binding ih (stood present) inside leads
  · intro needed
    induction needed with
    | global => exact .global
    | root given => exact .root given
    | value given leads => exact .value given leads
    | parent needed present around ih => exact .parent ih (stays needed present) around
    | binding needed present inside leads ih => exact .binding ih (stays needed present) inside leads

theorem isSome_collect_iff {id : ScopeId}
    (there : arena.Needed heap roots values id → (arena.scope? id).isSome) :
    ((arena.collect heap roots values).2.scope? id).isSome ↔
      (arena.collect heap roots values).2.Needed heap roots values id := by
  rw [needed_collect_iff]
  rcases arena.scope?_collect heap roots values id with ⟨needed, kept⟩ | ⟨needless, gone⟩
  · rw [kept]
    exact ⟨fun _ => needed, there⟩
  · rw [gone]
    exact ⟨fun impossible => (by cases impossible), fun needed => absurd needed needless⟩

end Arena

namespace Machine

variable {program : Block} {machine : Machine σ} {calls : List Call}

/-- When a run comes to its end there is no statement left, and a collection without roots is made. -/
theorem memory_of_exit (running : machine.status = .running)
    (exited : machine.step.machine.status = .exited) :
    machine.step.machine.memory = machine.settled.memory.collect [] := by
  cases next : machine.settled.next with
  | none =>
    rw [step_eq running, next]
    rfl
  | some upcoming =>
    obtain ⟨activity, node, rest⟩ := upcoming
    rw [step_of_next running next] at exited
    dsimp only at exited
    split at exited
    · exact absurd (running.symm.trans exited) (by decide)
    · cases exited

theorem Reached.exit_exact (reached : Reached program machine calls)
    (exited : machine.status = .exited) (id : ScopeId) :
    (machine.memory.scopes.scope? id).isSome ↔
      machine.memory.scopes.Needed machine.memory.heap [] [] id := by
  induction reached with
  | start ready =>
    unfold ofProgram at ready
    obtain ⟨⟨memory, hosts⟩, -, made⟩ := except_bind_ok ready
    cases made
    cases exited
  | @turn machine calls limit before ih =>
    cases beyond : machine.exceeds limit with
    | true =>
      simp only [Machine.turn, beyond, if_true] at exited
      cases exited
    | false =>
      simp only [Machine.turn, beyond, Bool.false_eq_true, if_false] at exited ⊢
      -- the exit collects from the global scope alone, and a machine that has exited stays as it is
      by_cases running : machine.status = .running
      · obtain ⟨ledger, full, segments, -, abreast⟩ := before.abreast_settled running
        rw [memory_of_exit running exited]
        have stands : machine.settled.memory.scopes.Needed machine.settled.memory.heap [] [] id →
            (machine.settled.memory.scopes.scope? id).isSome := by
          intro needed
          obtain ⟨original, live, rfl⟩ := abreast.memory.needed_stands abreast.fixed needed
          obtain ⟨scope, present, -⟩ := abreast.memory.scopes.scope live
          rw [abreast.memory.mirrors.scope_eq live, present]
          rfl
        exact Arena.isSome_collect_iff stands
      · have same : machine.step.machine = machine := by simp only [step, running, if_false]
        rw [same] at exited ⊢
        exact ih exited
  | on kind before ih => exact ih exited
  | load kinds before ih => exact ih exited

/-- Garbage is bounded. Between two steps of a run there are no more scopes than those that survived the last
collection, those that stayed when their calls returned since then, and those of the calls that have not
returned. Too few stayed to start a collection, which takes twice as many as survived the last one, but no
fewer than 64. When the program has come to its end, the scopes that are there are just those that the global
scope leads to. -/
theorem Reached.garbage_bounded (reached : Reached program machine calls) :
    (machine.status = .running →
      (∃ memories, Collected program machine memories) ∧
      ∀ memories, Collected program machine memories →
        machine.memory.scopes.live ≤
          Memory.survivors memories + machine.memory.scopes.retained + Stack.bodies machine.stack ∧
        machine.memory.scopes.retained < machine.memory.scopes.threshold ∧
        machine.memory.scopes.threshold = max 64 (2 * Memory.survivors memories)) ∧
    (machine.status = .exited → ∀ id,
      (machine.memory.scopes.scope? id).isSome ↔
        machine.memory.scopes.Needed machine.memory.heap [] [] id) := by
  refine ⟨fun running => ⟨reached.collected running, fun memories history => ?_⟩, reached.exit_exact⟩
  obtain ⟨live, retained, threshold⟩ := history.bounded running
  exact ⟨live, retained, threshold⟩

def capturing : Block :=
  .of default [.definition default "f" []
      (.of default [.definition default "g" [] (.of default [.pass default])]),
    .call default (.identifier default "f") [], .pass default]

/-- The scope of the call stays, though nothing leads to it any more, until the program has come to its
end. -/
theorem garbage_bounded_capturing :
    ∃ machine : Machine Unit, ofProgram capturing [] () = .ok machine ∧
      ∃ waiting last,
        waiting = ((((machine.turn none).machine.turn none).machine.turn none).machine.turn none).machine ∧
        last = ((waiting.turn none).machine.turn none).machine ∧
        waiting.status = .running ∧ waiting.memory.scopes.live = 2 ∧
        waiting.memory.scopes.retained = 1 ∧ Stack.bodies waiting.stack = 0 ∧
        (∃ memories, Collected capturing waiting memories ∧
          waiting.memory.scopes.live ≤
            Memory.survivors memories + waiting.memory.scopes.retained + Stack.bodies waiting.stack) ∧
        last.status = .exited ∧
        ∀ id, (last.memory.scopes.scope? id).isSome →
          last.memory.scopes.Needed last.memory.heap [] [] id := by
  have ready : ofProgram capturing ([] : Globals Unit) () = .ok _ := rfl
  have reached := ((((Reached.start ready).turn none).turn none).turn none).turn none
  have ended := (reached.turn none).turn none
  refine ⟨_, rfl, _, _, rfl, rfl, by decide +kernel, by decide +kernel, by decide +kernel,
    by decide +kernel, ?_, by decide +kernel, fun id present => ?_⟩
  · obtain ⟨⟨memories, history⟩, bounded⟩ := (Reached.garbage_bounded reached).1 (by decide +kernel)
    exact ⟨memories, history, (bounded memories history).1⟩
  · exact ((Reached.garbage_bounded ended).2 (by decide +kernel) id).1 present

end Machine

end TabScript
