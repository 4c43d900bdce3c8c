import TabScript.Proofs.Frames.Statement
import TabScript.Proofs.Hoard.Births

/-! Where the work of a run stands.

The scopes that the stack works in are there, at the beginning of a step and in front of its statement,
and a call that is entered gets a slot that is empty. So a step can only write to the scope of its
statement and to a scope that it opens. -/

set_option autoImplicit false

namespace TabScript

variable {σ : Type}

/-- From wherever the stack works the way leads outward to the global scope, and slots that are free are
empty. -/
structure Memory.Carries (memory : Memory) (stack : Stack) : Prop where
  global : ∃ scope, memory.scopes.scope? Arena.global = some scope ∧ scope.parent = none
  outward {continuation : Continuation} : continuation ∈ stack →
    ∃ way, memory.scopes.Outward continuation.scope way ∧ way.length ≤ memory.scopes.slots.size ∧
      (way.map Prod.fst).getLast? = some Arena.global
  vacant : ∀ slot ∈ memory.scopes.free, memory.scopes.slots[slot]? = some none

theorem Arena.Outward.stands {arena : Arena} {id : ScopeId} {way : List (ScopeId × Scope)}
    (outward : arena.Outward id way) : (arena.scope? id).isSome := by
  cases outward with
  | last present _ => exact Option.isSome_iff_exists.2 ⟨_, present⟩
  | inner present _ _ => exact Option.isSome_iff_exists.2 ⟨_, present⟩

namespace Memory.Carries

variable {memory : Memory} {stack : Stack} (carries : memory.Carries stack)
include carries

theorem stands_global : (memory.scopes.scope? Arena.global).isSome := by
  obtain ⟨scope, present, -⟩ := carries.global
  exact Option.isSome_iff_exists.2 ⟨scope, present⟩

theorem stands {continuation : Continuation} (inside : continuation ∈ stack) :
    (memory.scopes.scope? continuation.scope).isSome := by
  obtain ⟨way, outward, -⟩ := carries.outward inside
  exact outward.stands

end Memory.Carries

theorem Abreast.carries {program : List Node} {ledger : Ledger} {slim full : Memory}
    {segments : List Segment} (abreast : Abreast σ program ledger slim full segments) :
    slim.Carries (Stack.relocate ledger.place (Stack.join segments)) := by
  have stands := abreast.memory.mirrors
  have closed := abreast.memory.scopes
  have leads : ∀ id, ledger.live id → ∃ way, slim.scopes.Outward (ledger.place id) way ∧
      way.length ≤ slim.scopes.slots.size ∧ (way.map Prod.fst).getLast? = some Arena.global := by
    intro id live
    obtain ⟨way, -, -, outward, short, last⟩ := stands.outward closed live
    refine ⟨_, outward, by simpa using short, ?_⟩
    rw [List.map_map]
    rw [List.getLast?_map] at last ⊢
    obtain ⟨step, found, global⟩ := Option.map_eq_some_iff.1 last
    rw [found, Option.map_some, Function.comp_apply, global, abreast.fixed]
  refine ⟨?_, fun {continuation} inside => ?_, fun slot => stands.vacant⟩
  · have global := closed.live closed.global
    obtain ⟨scope, present, inside⟩ := closed.scope global
    have there := stands.scope_eq global
    rw [abreast.fixed, present] at there
    refine ⟨_, there, ?_⟩
    cases parent : scope.parent with
    | none => rw [Scope.relocate, parent, Option.map_none]
    | some outer =>
      -- a scope around the global one would be older than the first
      have older := (inside.parent parent).2
      exact absurd older (Nat.not_lt_zero _)
  · obtain ⟨original, here, rfl⟩ := List.mem_map.1 inside
    rw [Stack.scope_relocate]
    have admitted := abreast.admitted original here
    cases original with
    | entering closure arguments => exact leads _ (closed.live admitted.1)
    | running activity => exact leads _ admitted.1

namespace Machine

section
variable {program : Block} {machine : Machine σ} {calls : List Call}
  (reached : Reached program machine calls) (running : machine.status = .running)
include reached running

theorem Reached.carries : machine.memory.Carries machine.stack := by
  obtain ⟨hoard, births, shadowed⟩ := reached.shadowed running
  obtain ⟨ledger, -, mirrors⟩ := (shadowed.beside running).mirrors births.fixes_place
  obtain ⟨segments, joined, abreast⟩ := mirrors.abreast
  rw [mirrors.stack, joined]
  exact abreast.carries

theorem Reached.abreast_settled :
    ∃ ledger full segments, machine.settled.stack = Stack.relocate ledger.place (Stack.join segments) ∧
      Abreast σ program.statements ledger machine.settled.memory full segments := by
  obtain ⟨hoard, births, shadowed⟩ := reached.shadowed running
  have beside := shadowed.beside running
  have fixes := Births.fixes_place (births ++ machine.settled.opened)
  obtain ⟨ledger, place, mirrors⟩ := beside.mirrors fixes.of_append
  obtain ⟨segments, left, later, same, abreast, -, ready, next⟩ :=
    mirrors.meets (beside.placed mirrors (place ▸ fixes))
  refine ⟨left, _, later, ?_, abreast⟩
  rw [same, Settled.stack, next]
  generalize hoard.settled.next = upcoming at ready
  cases ready <;> rfl

theorem Reached.carries_settled : machine.settled.memory.Carries machine.settled.stack := by
  obtain ⟨ledger, full, segments, stack, abreast⟩ := reached.abreast_settled running
  rw [stack]
  exact abreast.carries

end

end Machine

theorem Segment.Shape.begun {program : List Node} {above owner : Option Call} {scope : ScopeId}
    {activities : List Activity} {lower : List Segment}
    (shape : Shape σ program above (.active owner scope activities :: lower)) :
    ∀ continuation ∈ Stack.join (.active owner scope activities :: lower),
      ∃ activity, continuation = .running activity := by
  intro continuation inside
  rcases List.mem_append.1 inside with here | below
  · obtain ⟨activity, -, rfl⟩ := List.mem_map.1 here
    exact ⟨activity, rfl⟩
  · cases shape with
    | program => cases below
    | active _ _ rest =>
      obtain ⟨activity, same, -⟩ := rest.scope_mem continuation below
      exact ⟨activity, same⟩

namespace Segment.Shape

variable {program : List Node} {segments : List Segment} (shape : Shape σ program none segments)
include shape

theorem begun_of_running {activity : Activity} {rest : Stack}
    (stacked : Stack.join segments = .running activity :: rest) :
    ∀ continuation ∈ Stack.join segments, ∃ activity, continuation = .running activity := by
  obtain ⟨owner, scope, below, lower, rfl, -⟩ := shape.of_join_running stacked
  exact shape.begun

theorem begun_or_entering :
    (∀ continuation ∈ Stack.join segments, ∃ activity, continuation = .running activity) ∨
      ∃ closure arguments rest, Stack.join segments = .entering closure arguments :: rest := by
  cases stacked : Stack.join segments with
  | nil => exact .inl nofun
  | cons top rest =>
    cases top with
    | entering closure arguments => exact .inr ⟨closure, arguments, rest, rfl⟩
    | running activity => exact .inl (stacked ▸ shape.begun_of_running stacked)

end Segment.Shape

theorem Stack.entries_of_begun {stack : Stack}
    (begun : ∀ continuation ∈ stack, ∃ activity, continuation = .running activity) :
    entries stack = 0 := by
  induction stack with
  | nil => rfl
  | cons top rest ih =>
    have below := ih fun continuation inside => begun continuation (List.mem_cons_of_mem _ inside)
    obtain ⟨activity, rfl⟩ := begun top List.mem_cons_self
    rw [entries]
    split
    · rfl
    · rfl
    · exact below

namespace Memory

variable {memory : Memory}

theorem opened_of_begun {stack : Stack}
    (begun : ∀ continuation ∈ stack, ∃ activity, continuation = .running activity) :
    (memory.settleWith release stack).opened = [] := by
  rw [← List.length_eq_zero_iff, length_opened_settleWith, Stack.entries_of_begun begun]

/-- On the way to a statement scopes are put into slots that were empty before. Calls are entered on top
of the stack only, so this comes before any scope is given back. -/
theorem Carries.opened {program : List Node} {segments : List Segment}
    (carries : memory.Carries (Stack.join segments)) (shape : Segment.Shape σ program none segments) :
    ∀ id ∈ (memory.settleWith release (Stack.join segments)).opened,
      memory.scopes.scope? id = none := by
  intro id inside
  rcases shape.begun_or_entering with begun | ⟨closure, arguments, rest, stacked⟩
  · rw [opened_of_begun begun] at inside
    cases inside
  · obtain ⟨entered, stacked', shape', -⟩ := shape.enter stacked (memory.enter closure arguments).1
    have later : ((memory.enter closure arguments).2.settleWith release
        (.running (.body closure (memory.enter closure arguments).1) :: rest)).opened = [] := by
      rw [← stacked']
      exact opened_of_begun (shape'.begun_of_running stacked')
    -- the new scope comes first, and when its body is empty nothing more is entered
    rw [stacked, settleWith_entering] at inside
    simp only [Settled.opened, Settled.after, List.filterMap_cons, Passage.opened?] at inside later
    rw [later, List.mem_singleton] at inside
    rw [inside]
    exact (Arena.scope?_push memory.scopes carries.vacant _ _).1

theorem spares_settleWith (memory : Memory) (stack : Stack) :
    memory.scopes.Spares (memory.settleWith release stack).opened
      (memory.settleWith release stack).memory.scopes := by
  induction memory, stack using settleWith.induct release with
  | case1 memory =>
    rw [settleWith_nil]
    exact memory.scopes.spares_refl
  | case2 memory closure arguments rest scope larger entered ih =>
    have opened := memory.spares_enter closure arguments
    rw [entered] at opened
    rw [settleWith_entering, entered]
    exact opened.trans ih
  | case3 memory activity rest node current =>
    rw [settleWith_statement current]
    exact memory.scopes.spares_refl
  | case4 memory activity rest sequel spent ih =>
    rw [settleWith_nothing spent sequel]
    exact ih
  | case5 memory activity rest loop sequel spent =>
    rw [settleWith_recheck spent sequel]
    exact memory.scopes.spares_refl
  | case6 memory activity rest sequel spent delivered ih =>
    rw [settleWith_return spent sequel]
    exact (memory.spares_release activity.scope delivered).trans ih

theorem spares_vacate (memory : Memory) (stack : Stack) (ended : Except Interrupt Flow) :
    memory.scopes.Spares [] (Stack.vacate release memory stack ended).scopes := by
  rcases Stack.vacate_cases release memory stack ended with same | ⟨callee, left, same⟩
  · rw [same]
    exact memory.scopes.spares_refl
  · rw [same]
    exact memory.spares_release callee left

end Memory

namespace Machine

variable {machine : Machine σ}

theorem attempt_careful (machine : Machine σ) (memory : Memory) (activity : Activity) (node : Node) :
    memory.scopes.Spares [activity.scope]
      (machine.attempt memory activity node).2.memory.scopes :=
  (Evaluation.careful_exec ⟨activity.scope, machine.wants, machine.hosts⟩ node).spares
    ⟨memory, activity.replay.rewind, machine.host, [], []⟩

theorem spares_step (running : machine.status = .running) {activity : Activity} {node : Node}
    {rest : Stack} (next : machine.settled.next = some (activity, node, rest)) :
    machine.settled.memory.scopes.Spares [activity.scope] machine.step.machine.memory.scopes := by
  have wrote := machine.attempt_careful machine.settled.memory activity node
  rw [step_of_next running next]
  generalize machine.attempt machine.settled.memory activity node = reached at wrote ⊢
  dsimp only
  cases Stack.proceed { activity with replay := reached.2.replay } rest reached.1 with
  | none => exact wrote
  | some stack => exact (wrote.trans (Memory.spares_vacate _ _ _)).widen (by simp)

end Machine

end TabScript
