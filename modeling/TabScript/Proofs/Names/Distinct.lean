import TabScript.Proofs.Frames.Standing
import TabScript.Proofs.Stack.Kept

/-! No scope binds a name twice.

A name that is bound again keeps its place in its scope. So whatever a run does, the bindings of every scope
have different names, and it does not matter in which order they are looked at. -/

set_option autoImplicit false

namespace TabScript

variable {σ α β : Type}

def Bindings.Distinct (bindings : Bindings) : Prop := (bindings.map Prod.fst).Nodup

def Arena.Distinct (arena : Arena) : Prop :=
  ∀ id scope, arena.scope? id = some scope → scope.bindings.Distinct

namespace Bindings

theorem names_set (bindings : Bindings) (name : String) (value : Value) :
    (bindings.set name value).map Prod.fst =
      if name ∈ bindings.map Prod.fst then bindings.map Prod.fst
      else bindings.map Prod.fst ++ [name] := by
  induction bindings with
  | nil => rfl
  | cons first rest ih =>
    obtain ⟨bound, old⟩ := first
    by_cases same : bound = name
    · simp [set, same]
    · have other : ¬name = bound := fun equal => same equal.symm
      simp only [set, same, if_false, List.map_cons, ih, List.mem_cons, other, false_or]
      split <;> rfl

theorem Distinct.set {bindings : Bindings} (distinct : bindings.Distinct) (name : String)
    (value : Value) : (bindings.set name value).Distinct := by
  unfold Distinct
  rw [names_set]
  split
  -- a name that is there keeps its place, and a new one comes last
  · exact distinct
  · rename_i new
    refine List.nodup_append.2 ⟨distinct, List.pairwise_singleton _ _, fun bound inside other same => ?_⟩
    rw [List.mem_singleton.1 same]
    rintro rfl
    exact new inside

end Bindings

namespace Arena.Distinct

variable {arena before after : Arena}

theorem spares (distinct : before.Distinct) (spares : before.Spares [] after) : after.Distinct := by
  intro id scope present
  have same := spares id (by simp) (Option.isSome_iff_exists.2 ⟨scope, present⟩)
  rw [face?, face?, present] at same
  obtain ⟨old, stood, faces⟩ := Option.map_eq_some_iff.1 same.symm
  obtain ⟨-, bindings, -⟩ := Scope.face_eq_iff.1 faces
  exact bindings ▸ distinct id old stood

theorem assign (distinct : arena.Distinct) (id : ScopeId) (name : String) (value : Value) :
    (arena.assign id name value).Distinct := by
  intro other scope present
  rw [Arena.assign, scope?_modify] at present
  split at present
  · obtain ⟨old, stood, rfl⟩ := Option.map_eq_some_iff.1 present
    exact (distinct id old stood).set name value
  · exact distinct other scope present

theorem assignAll (distinct : arena.Distinct) (id : ScopeId) (bindings : List (String × Value)) :
    Arena.Distinct
      (bindings.foldl (fun arena binding => arena.assign id binding.1 binding.2) arena) := by
  induction bindings generalizing arena with
  | nil => exact distinct
  | cons first rest ih => exact ih (distinct.assign id first.1 first.2)

theorem push (distinct : arena.Distinct) (parent : ScopeId) (frame : Option Frame) :
    (arena.push parent frame).2.Distinct := by
  intro id scope present
  by_cases opened : id = (arena.push parent frame).1
  · have empty : scope.bindings = [] := by
      unfold Arena.push at present opened
      cases unused : arena.free with
      | nil =>
        simp only [unused] at present opened
        subst opened
        simp only [scope?, Array.getElem?_push_size, Option.join_some, Option.some.injEq] at present
        rw [← present]
      | cons slot rest =>
        simp only [unused] at present opened
        subst opened
        simp only [scope?, Array.getElem?_setIfInBounds_self] at present
        split at present
        · simp only [Option.join_some, Option.some.injEq] at present
          rw [← present]
        · cases present
    rw [empty]
    exact List.nodup_nil
  -- a slot that was used before may be taken, but no other scope is touched
  · have same := arena.spares_push parent frame id (by simpa using opened)
      (Option.isSome_iff_exists.2 ⟨scope, present⟩)
    rw [face?, face?, present] at same
    obtain ⟨old, stood, faces⟩ := Option.map_eq_some_iff.1 same.symm
    obtain ⟨-, bindings, -⟩ := Scope.face_eq_iff.1 faces
    exact bindings ▸ distinct id old stood

end Arena.Distinct

namespace Memory

theorem distinct_initial : initial.scopes.Distinct := by
  intro id scope present
  have empty : scope.bindings = [] := by
    obtain ⟨_ | slot⟩ := id
    · cases present
      rfl
    · cases present
  rw [empty]
  exact List.nodup_nil

variable {memory : Memory} (distinct : memory.scopes.Distinct)
include distinct

theorem distinct_install (name : String) (native : Native) :
    (memory.install name native).scopes.Distinct :=
  distinct.assign Arena.global name _

theorem distinct_enter (closure : Closure) (arguments : List Value) :
    (memory.enter closure arguments).2.scopes.Distinct :=
  (distinct.push closure.scope (some ⟨closure.name, closure.parameters⟩)).assignAll _ _

theorem distinct_settleWith (stack : Stack) :
    (memory.settleWith release stack).memory.scopes.Distinct :=
  (settleWith_keeps (fun later => later.scopes.Distinct) (fun _ => True)
    (fun _ closure arguments good _ => ⟨distinct_enter good closure arguments, trivial⟩)
    (fun _ _ _ _ => trivial)
    (fun later callee left good => good.spares (later.spares_release callee left))
    (fun _ _ => trivial) distinct fun _ _ => trivial).1

end Memory

namespace Evaluation

def Tidy (part : Evaluation σ α) : Prop :=
  ∀ progress : Progress σ, progress.memory.scopes.Distinct →
    (part progress).2.memory.scopes.Distinct

theorem Quiet.tidy {part : Evaluation σ α} (quiet : Quiet part) : Tidy part := by
  intro progress distinct
  rw [(quiet progress).scopes]
  exact distinct

theorem Passive.tidy {part : Evaluation σ α} (passive : Passive part) : Tidy part := by
  intro progress distinct
  obtain ⟨value, -, same⟩ := passive progress
  rw [same]
  exact distinct

theorem Tidy.bind {first : Evaluation σ α} {next : α → Evaluation σ β} (start : Tidy first)
    (rest : ∀ value, Tidy (next value)) : Tidy (first >>= next) := by
  intro progress distinct
  rw [bind_apply]
  have begun := start progress distinct
  rcases reached : first progress with ⟨_ | value, between⟩ <;> rw [reached] at begun
  · exact begun
  · exact rest value between begun

theorem Tidy.remember {body : Evaluation σ Value} (inner : Tidy body) : Tidy (remember body) := by
  intro progress distinct
  unfold Evaluation.remember
  rcases progress.replay.take with ⟨value | slot, replay⟩
  · exact distinct
  · have evaluated := inner { progress with replay := replay } distinct
    dsimp only
    generalize body { progress with replay := replay } = reached at evaluated ⊢
    rcases reached with ⟨(_ | _) | _, after⟩ <;> exact evaluated

variable (surroundings : Surroundings σ)

theorem tidy_define (name : String) (parameters : List String) (body : Block) :
    Tidy (define surroundings name parameters body) := by
  intro progress distinct
  have captured := distinct.spares (progress.memory.scopes.spares_capture surroundings.scope)
  let function : Value := .function (.closure
    ⟨name, parameters, body.statements, surroundings.scope, progress.memory.identify.1⟩)
  have bound : Tidy (do
      assign surroundings.scope name function
      notifyAssign surroundings (some name) function) :=
    Tidy.bind (fun _ distinct => distinct.assign surroundings.scope name function) fun _ =>
      (passive_notifyAssign surroundings _ _).tidy
  exact bound
    { progress with
      memory := ⟨progress.memory.heap.identify.2,
        progress.memory.scopes.capture surroundings.scope⟩ } captured

theorem tidy_actions : Actions surroundings fun _ part => Tidy part where
  pure value := (quiet_pure value).tidy
  fail cause span _ := (quiet_fail cause span).tidy
  heap := quiet_heap.tidy
  realize computed := (quiet_realize computed).tidy
  lookup span name := (quiet_lookup surroundings span name).tidy
  setHeap _ := fun _ distinct => distinct
  assign name value := fun _ distinct => distinct.assign surroundings.scope name value
  notifyAssign name value := (passive_notifyAssign surroundings name value).tidy
  notifyMutation container := (passive_notifyMutation surroundings container).tidy
  define := tidy_define surroundings

theorem Composed.tidy {inside : Bool} {part : Evaluation σ α}
    (parts : Composed (fun _ part => Tidy part) Tidy inside α part) : Tidy part := by
  induction parts with
  | action good => exact good
  | ask good => exact good
  | bind _ _ start rest => exact start.bind rest
  | expression _ body => exact body.remember

theorem tidy_exec (node : Node) : Tidy (exec surroundings node) := by
  refine (composed_exec (tidy_actions surroundings) (fun span callee nodes function arguments => ?_)
    node).tidy
  exact (quiet_apply surroundings span callee nodes function arguments).tidy

end Evaluation

namespace Machine

variable {machine : Machine σ}

theorem distinct_step (distinct : machine.memory.scopes.Distinct) :
    machine.step.machine.memory.scopes.Distinct := by
  have settled := Memory.distinct_settleWith distinct machine.stack
  refine step_keeps (fun memory _ => memory.scopes.Distinct) distinct
    (fun _ => Arena.Distinct.spares settled (Memory.spares_collect machine.settled.memory []))
    fun activity node rest next => ?_
  have tidy : (machine.attempt machine.settled.memory activity node).2.memory.scopes.Distinct :=
    Evaluation.tidy_exec ⟨activity.scope, machine.wants, machine.hosts⟩ node
      ⟨machine.settled.memory, activity.replay.rewind, machine.host, [], []⟩ settled
  exact ⟨tidy, fun stack _ => tidy.spares (Memory.spares_vacate _ _ _)⟩

/-- Whatever happens in a run, no scope binds a name twice. -/
theorem Reached.distinct {program : Block} {calls : List Call} (reached : Reached program machine calls) :
    machine.memory.scopes.Distinct :=
  reached.keeps (fun memory _ => memory.scopes.Distinct)
    (fun _ _ _ ready => ofProgram_keeps (fun memory => memory.scopes.Distinct)
      (fun _ name native good => Memory.distinct_install good name native)
      (fun _ _ _ _ name good _ => good.assign Arena.global name _) Memory.distinct_initial ready)
    fun _ => distinct_step

end Machine

end TabScript
