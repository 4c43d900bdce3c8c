import TabScript.Proofs.Collection.Exact
import TabScript.Proofs.Frames.Standing

/-! How many scopes there are.

Scopes are counted through the slots that are taken. Calls take slots and give them back, a captured scope
that is left is noted instead, and nothing that a statement does itself changes any of these counts. -/

set_option autoImplicit false

namespace TabScript

variable {σ α β : Type}

namespace Arena

structure Level (before after : Arena) : Prop where
  taken : after.slots.map Option.isSome = before.slots.map Option.isSome
  retained : after.retained = before.retained
  threshold : after.threshold = before.threshold

variable {before between after : Arena}

theorem level_refl (arena : Arena) : arena.Level arena := ⟨rfl, rfl, rfl⟩

theorem Level.trans (first : before.Level between) (second : between.Level after) :
    before.Level after :=
  ⟨second.taken.trans first.taken, second.retained.trans first.retained,
    second.threshold.trans first.threshold⟩

theorem Level.live (level : before.Level after) : after.live = before.live := by
  have counts : ∀ arena : Arena, arena.live = (arena.slots.map Option.isSome).countP id := by
    intro arena
    rw [Array.countP_map]
    rfl
  rw [counts, counts, level.taken]

theorem Level.isSome (level : before.Level after) (id : ScopeId) :
    (after.scope? id).isSome = (before.scope? id).isSome := by
  have reads : ∀ arena : Arena,
      (arena.scope? id).isSome = ((arena.slots.map Option.isSome)[id.slot]?).getD false := by
    intro arena
    rw [scope?, Array.getElem?_map]
    cases arena.slots[id.slot]? <;> rfl
  rw [reads, reads, level.taken]

theorem level_modify (arena : Arena) (id : ScopeId) (change : Scope → Scope) :
    arena.Level (arena.modify id change) := by
  refine ⟨Array.ext_getElem? fun slot => ?_, rfl, rfl⟩
  simp only [modify, Array.getElem?_map, Array.getElem?_modify]
  split
  · rw [Option.map_map]
    congr 1
    funext content
    cases content <;> rfl
  · rfl

theorem level_assignAll (arena : Arena) (id : ScopeId) (bindings : List (String × Value)) :
    arena.Level
      (bindings.foldl (fun arena binding => arena.assign id binding.1 binding.2) arena) := by
  induction bindings generalizing arena with
  | nil => exact arena.level_refl
  | cons first rest ih => exact (arena.level_modify id _).trans (ih _)

theorem live_push (arena : Arena) (vacant : ∀ slot ∈ arena.free, arena.slots[slot]? = some none)
    (parent : ScopeId) (frame : Option Frame) :
    (arena.push parent frame).2.live = arena.live + 1 := by
  unfold push
  cases unused : arena.free with
  | nil => simp [live]
  | cons slot rest =>
    have empty := vacant slot (by simp [unused])
    obtain ⟨inside, content⟩ := Array.getElem?_eq_some_iff.1 empty
    simp [live, Array.setIfInBounds, inside, Array.countP_set, content]

/-- A scope that is given back leaves one slot less taken, and one that stays is noted. -/
theorem release_counts {arena : Arena} {id : ScopeId} (present : (arena.scope? id).isSome) :
    ((arena.release id).1 = true ∧ (arena.release id).2.live + 1 = arena.live ∧
        (arena.release id).2.retained = arena.retained ∧
        (arena.release id).2.threshold = arena.threshold) ∨
      ((arena.release id).1 = false ∧ (arena.release id).2.live = arena.live ∧
        (arena.release id).2.retained = arena.retained + 1 ∧
        (arena.release id).2.threshold = arena.threshold) := by
  obtain ⟨scope, there⟩ := Option.isSome_iff_exists.1 present
  cases captured : scope.captured with
  | true => exact .inr (by simp [release, there, captured, live])
  | false =>
    have inside := size_of_scope? there
    have content : arena.slots[id.slot] = some scope := by
      simpa [scope?, Array.getElem?_eq_getElem inside] using there
    have counted : 0 < arena.slots.countP Option.isSome :=
      Array.countP_pos_iff.2 ⟨some scope, content ▸ Array.getElem_mem inside, rfl⟩
    refine .inl ⟨by simp [release, there, captured], ?_, by simp [release, there, captured],
      by simp [release, there, captured]⟩
    simp only [release, there, captured, Bool.false_eq_true, if_false, live, Array.setIfInBounds,
      inside, dif_pos, Array.countP_set, content, Option.isSome_some, if_true, Option.isSome_none]
    omega

end Arena

namespace Evaluation

def Even (part : Evaluation σ α) : Prop :=
  ∀ progress : Progress σ, progress.memory.scopes.Level (part progress).2.memory.scopes

theorem Quiet.even {part : Evaluation σ α} (quiet : Quiet part) : Even part := by
  intro progress
  rw [(quiet progress).scopes]
  exact Arena.level_refl _

theorem Passive.even {part : Evaluation σ α} (passive : Passive part) : Even part := by
  intro progress
  obtain ⟨value, -, same⟩ := passive progress
  rw [same]
  exact Arena.level_refl _

theorem Even.bind {first : Evaluation σ α} {next : α → Evaluation σ β} (start : Even first)
    (rest : ∀ value, Even (next value)) : Even (first >>= next) := by
  intro progress
  rw [bind_apply]
  have begun := start progress
  rcases reached : first progress with ⟨_ | value, between⟩ <;> rw [reached] at begun
  · exact begun
  · exact begun.trans (rest value between)

theorem Even.remember {body : Evaluation σ Value} (inner : Even body) : Even (remember body) := by
  intro progress
  unfold Evaluation.remember
  rcases progress.replay.take with ⟨value | slot, replay⟩
  · exact Arena.level_refl _
  · have evaluated := inner { progress with replay := replay }
    dsimp only
    generalize body { progress with replay := replay } = reached at evaluated ⊢
    rcases reached with ⟨(_ | _) | _, after⟩ <;> exact evaluated

theorem even_assign (scope : ScopeId) (name : String) (value : Value) :
    Even (assign scope name value : Evaluation σ Unit) :=
  fun progress => progress.memory.scopes.level_modify scope _

variable (surroundings : Surroundings σ)

theorem even_define (name : String) (parameters : List String) (body : Block) :
    Even (define surroundings name parameters body) := by
  intro progress
  let function : Value := .function (.closure
    ⟨name, parameters, body.statements, surroundings.scope, progress.memory.identify.1⟩)
  have bound : Even (do
      assign surroundings.scope name function
      notifyAssign surroundings (some name) function) :=
    (even_assign _ name function).bind fun _ => (passive_notifyAssign surroundings _ _).even
  exact (progress.memory.scopes.level_modify surroundings.scope _).trans (bound
    { progress with
      memory := ⟨progress.memory.heap.identify.2,
        progress.memory.scopes.capture surroundings.scope⟩ })

theorem even_actions : Actions surroundings fun _ part => Even part where
  pure value := (quiet_pure value).even
  fail cause span _ := (quiet_fail cause span).even
  heap := quiet_heap.even
  realize computed := (quiet_realize computed).even
  lookup span name := (quiet_lookup surroundings span name).even
  setHeap _ := fun _ => Arena.level_refl _
  assign := even_assign surroundings.scope
  notifyAssign name value := (passive_notifyAssign surroundings name value).even
  notifyMutation container := (passive_notifyMutation surroundings container).even
  define := even_define surroundings

theorem Composed.even {inside : Bool} {part : Evaluation σ α}
    (parts : Composed (fun _ part => Even part) Even inside α part) : Even part := by
  induction parts with
  | action good => exact good
  | ask good => exact good
  | bind _ _ start rest => exact start.bind rest
  | expression _ body => exact body.remember

/-- A statement by itself opens no scope and gives none back. -/
theorem even_exec (node : Node) : Even (exec surroundings node) := by
  refine (composed_exec (even_actions surroundings) (fun span callee nodes function arguments => ?_)
    node).even
  exact (quiet_apply surroundings span callee nodes function arguments).even

end Evaluation

end TabScript
