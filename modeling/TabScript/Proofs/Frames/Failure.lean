import TabScript.Proofs.Checks.Run
import TabScript.Proofs.Frames.Picture
import TabScript.Proofs.Frames.Standing

/-! Steps that fail.

Calls may be left and one may be entered before the statement that fails, and the statement may have called
functions of the host and made arrays. Nothing else comes of it. -/

set_option autoImplicit false

namespace TabScript

variable {σ : Type}

namespace Machine

/-- What can become of a machine: steps are taken and hooks are added. -/
inductive Becomes (start : Machine σ) : Machine σ → Prop where
  | same : Becomes start start
  | turn {machine : Machine σ} (limit : Option Nat) (before : Becomes start machine) :
    Becomes start (machine.turn limit).machine
  | on {machine : Machine σ} (kind : EventKind) (before : Becomes start machine) :
    Becomes start (machine.on kind)
  | load {machine : Machine σ} (kinds : List EventKind) (before : Becomes start machine) :
    Becomes start (machine.load kinds).1

variable {machine : Machine σ}

theorem turn_of_idle (idle : machine.status ≠ .running) (limit : Option Nat) :
    machine.turn limit = ⟨.ok none, machine, []⟩ := by
  have within : machine.exceeds limit = false := by
    cases limit with
    | none => rfl
    | some most => simp [exceeds, isFinished, idle]
  simp only [turn, within, Bool.false_eq_true, if_false, step, idle]

theorem Becomes.of_idle {start : Machine σ} (idle : start.status ≠ .running)
    (becomes : start.Becomes machine) :
    machine.status ≠ .running ∧ machine.memory = start.memory ∧ machine.stack = start.stack := by
  induction becomes with
  | same => exact ⟨idle, rfl, rfl⟩
  | turn limit before ih =>
    rw [turn_of_idle ih.1]
    exact ih
  | on kind before ih => exact ih
  | load kinds before ih => exact ih

/-- A step that fails stops the run in front of its statement. What the statement has done is to make
arrays and to call the host, because a statement writes to something only when it cannot fail any more,
and what a return outside of all calls gives back is only evaluated. -/
theorem step_failed {fault : Fault} (fails : machine.step.result = .error fault) :
    machine.settled.memory.Extends machine.step.machine.memory ∧ machine.step.machine.stack = [] ∧
      machine.step.machine.status = .halted ∧
      ∃ calls : List HostCall, machine.step.observed = calls.map Observation.called := by
  have running := running_of_fails fails
  obtain ⟨activity, node, rest, next, ended⟩ := step_fails running fails
  let surroundings : Surroundings σ := ⟨activity.scope, machine.wants, machine.hosts⟩
  have quiet : machine.settled.memory.Extends
      (machine.attempt machine.settled.memory activity node).2.memory := by
    -- either the statement was cut short, or it was a return and its value was not taken
    rcases ended with failed | ⟨-, value, leaves⟩
    · exact (Evaluation.careful_exec surroundings node).undone failed
    · obtain ⟨span, operand, rfl⟩ := Evaluation.exec_leave (Prod.ext leaves rfl)
      exact Evaluation.quiet_result surroundings span operand
        ⟨machine.settled.memory, activity.replay.rewind, machine.host, [], []⟩
  rw [step_of_next running next] at fails ⊢
  generalize machine.attempt machine.settled.memory activity node = reached at fails quiet ⊢
  dsimp only at fails ⊢
  cases goes : Stack.proceed { activity with replay := reached.2.replay } rest reached.1 with
  | some stack =>
    simp only [goes] at fails
    cases fails
  | none => exact ⟨quiet, rfl, rfl, reached.2.calls.reverse, rfl⟩

theorem outermost_scope (carries : machine.memory.Carries machine.stack) :
    ∃ scope, machine.memory.scopes.scope? Arena.global = some scope ∧ scope.parent = none ∧
      machine.scope.outermost =
        .level (Snapshot.namesOf machine.memory.heap scope.bindings) scope.frame none := by
  obtain ⟨scope, present, outermost⟩ := carries.global
  refine ⟨scope, present, outermost, ?_⟩
  unfold Machine.scope
  cases stacked : machine.stack with
  | nil =>
    have seen := Arena.snapshot_global present outermost machine.memory.heap
    exact congrArg Snapshot.outermost seen
  | cons top rest =>
    obtain ⟨way, outward, short, ends⟩ := carries.outward (stacked ▸ List.mem_cons_self : top ∈ _)
    obtain ⟨last, there, seen⟩ :=
      Arena.outermost_snapshot outward short ends machine.memory.heap
    obtain rfl := Option.some.inj (present.symm.trans there)
    exact seen

section
variable {program : Block} {calls : List Call} (reached : Reached program machine calls) {fault : Fault}
  (fails : machine.step.result = .error fault)
include reached fails

/-- A scope that is there before and after a step that fails stands in a slot that no other scope was put
into, and it is as it was. -/
theorem Reached.face?_of_fails {id : ScopeId}
    (before : (machine.memory.scopes.scope? id).isSome)
    (after : (machine.step.machine.memory.scopes.scope? id).isSome) :
    machine.step.machine.memory.scopes.face? id = machine.memory.scopes.face? id := by
  have running := running_of_fails fails
  obtain ⟨segments, stacked, -, shape⟩ := reached.shape running
  obtain ⟨extension, -⟩ := step_failed fails
  have carries := reached.carries running
  rw [stacked] at carries
  have spares := machine.memory.spares_settleWith machine.stack
  change machine.memory.scopes.Spares machine.settled.opened machine.settled.memory.scopes at spares
  rw [extension.scopes] at after ⊢
  refine spares id (fun opened => ?_) after
  unfold settled at opened
  rw [stacked] at opened
  have vacant := carries.opened shape id opened
  rw [vacant] at before
  cases before

theorem Reached.heap_of_fails :
    machine.memory.heap.Extends machine.step.machine.memory.heap := by
  have lawful : machine.Lawful False := reached.lawful fun impossible => impossible.elim
  obtain ⟨extension, -⟩ := step_failed fails
  rw [← lawful.settled.heap]
  exact extension.heap

theorem Reached.scope_of_fails : machine.step.machine.scope = machine.scope.outermost := by
  have running := running_of_fails fails
  have lawful : machine.Lawful False := reached.lawful fun impossible => impossible.elim
  obtain ⟨extension, stack, -⟩ := step_failed fails
  obtain ⟨scope, present, outermost, seen⟩ := outermost_scope (reached.carries running)
  have global := (reached.carries_settled running).stands_global
  rw [← extension.scopes] at global
  have same := reached.face?_of_fails fails (Option.isSome_iff_exists.2 ⟨scope, present⟩) global
  obtain ⟨left, there⟩ := Option.isSome_iff_exists.1 global
  rw [Arena.face?, Arena.face?, present, there] at same
  obtain ⟨parent, bindings, frame⟩ := Scope.face_eq_iff.1 (Option.some.inj same)
  have names := Snapshot.namesOf_extends (reached.heap_of_fails fails) lawful.memory.heap
    (lawful.memory.scopes _ _ present)
  rw [seen, Machine.scope, stack]
  refine (Arena.snapshot_global there (parent.trans outermost) _).trans ?_
  rw [bindings, frame, names]

/-- When a step fails, all scopes that are left have the bindings that they had, all arrays have their
items, and no event is handed to a hook. The run is over: no later step does anything, whatever hooks are
added, and of what was seen before the step only the global scope is left. -/
theorem Reached.failure_is_atomic :
    (∀ id before after, machine.memory.scopes.scope? id = some before →
      machine.step.machine.memory.scopes.scope? id = some after → after.face = before.face) ∧
    (∀ ref, machine.memory.heap.Has ref →
      machine.step.machine.memory.heap.items ref = machine.memory.heap.items ref) ∧
    (∀ observation ∈ machine.step.observed, ∃ call, observation = .called call) ∧
    machine.step.machine.status = .halted ∧
    ∀ later, machine.step.machine.Becomes later →
      (∀ limit, later.turn limit = ⟨.ok none, later, []⟩) ∧ later.step = ⟨.ok none, later, []⟩ ∧
        later.scope = machine.scope.outermost := by
  obtain ⟨-, stack, halted, hostCalls, observed⟩ := step_failed fails
  refine ⟨fun id before after stood stands => ?_, fun ref present => ?_, fun observation inside => ?_,
    halted, fun later becomes => ?_⟩
  · have same := reached.face?_of_fails fails (Option.isSome_iff_exists.2 ⟨before, stood⟩)
      (Option.isSome_iff_exists.2 ⟨after, stands⟩)
    rw [Arena.face?, Arena.face?, stood, stands] at same
    exact Option.some.inj same
  · exact (reached.heap_of_fails fails).items_eq present
  · rw [observed] at inside
    obtain ⟨call, -, same⟩ := List.mem_map.1 inside
    exact ⟨call, same.symm⟩
  · have idle : machine.step.machine.status ≠ .running := by simp [halted]
    obtain ⟨idle', memory, stack'⟩ := becomes.of_idle idle
    refine ⟨turn_of_idle idle', turn_of_idle idle' none, ?_⟩
    rw [← reached.scope_of_fails fails, Machine.scope, Machine.scope, memory, stack']

end

def failing : Block :=
  .of default [
    .definition default "f" [] (.of default [
      .assignment default (.identifier default "x") (.literal default none),
      .call default (.identifier default "y") []]),
    .call default (.identifier default "f") []]

/-- The fourth step fails where the variable of the call can be seen, and then it cannot any more. -/
theorem failure_is_atomic_failing :
    ∃ (machine : Machine Unit) (calls : List Call) (fault : Fault),
      Reached failing machine calls ∧ machine.step.result = .error fault ∧
      machine.scope.depth = 2 ∧ machine.step.machine.scope = machine.scope.outermost := by
  have found : ∃ (machine : Machine Unit) (calls : List Call), Reached failing machine calls ∧
      machine.problem? = some .undefinedVariable ∧ machine.scope.depth = 2 := by
    have ready : ofProgram failing ([] : Globals Unit) () = .ok _ := rfl
    have reached := (((Reached.start ready).turn none).turn none).turn none
    exact ⟨_, _, reached, by decide +kernel, by decide +kernel⟩
  obtain ⟨machine, calls, reached, problem, inside⟩ := found
  obtain ⟨fault, fails, -⟩ := fails_of_problem? problem
  have atomic := Reached.failure_is_atomic reached fails
  exact ⟨machine, calls, fault, reached, fails, inside, (atomic.2.2.2.2 _ .same).2.2⟩

end Machine

end TabScript
