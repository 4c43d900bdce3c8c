import TabScript.Proofs.Hoard.Reclaim

/-! What the operations on scopes leave as it was.

Every operation writes to one scope at most. A scope that is opened may get the slot of one that is gone,
so what is left alone is told of all slots but the ones that scopes were put into. -/

set_option autoImplicit false

namespace TabScript

/-- A scope without the note that a function was defined in it. -/
def Scope.face (scope : Scope) : Scope := { scope with captured := false }

theorem Scope.face_eq_iff {first second : Scope} : first.face = second.face ↔
    first.parent = second.parent ∧ first.bindings = second.bindings ∧ first.frame = second.frame := by
  cases first
  cases second
  simp [face]

namespace Arena

def face? (arena : Arena) (id : ScopeId) : Option Scope := (arena.scope? id).map Scope.face

/-- What stands in a slot afterwards is what stood there before, unless a scope was put there. -/
def Spares (opened : List ScopeId) (before after : Arena) : Prop :=
  ∀ id, id ∉ opened → (after.scope? id).isSome → after.face? id = before.face? id

variable {opened later : List ScopeId} {arena before between after : Arena} {id : ScopeId}

theorem spares_refl (arena : Arena) : arena.Spares [] arena := fun _ _ _ => rfl

theorem isSome_face? (arena : Arena) (id : ScopeId) :
    (arena.face? id).isSome = (arena.scope? id).isSome := by
  unfold face?
  cases arena.scope? id <;> rfl

theorem Spares.trans (first : before.Spares opened between) (second : between.Spares later after) :
    before.Spares (opened ++ later) after := by
  intro id apart present
  obtain ⟨here, there⟩ := not_or.1 (mt List.mem_append.2 apart)
  have same := second id there present
  have stood : (between.scope? id).isSome := by
    rw [← isSome_face?, ← same, isSome_face?]
    exact present
  exact same.trans (first id here stood)

theorem Spares.widen (spares : before.Spares opened after) (more : ∀ id ∈ opened, id ∈ later) :
    before.Spares later after := fun id apart =>
  spares id fun inside => apart (more id inside)

theorem spares_push (arena : Arena) (parent : ScopeId) (frame : Option Frame) :
    arena.Spares [(arena.push parent frame).1] (arena.push parent frame).2 := by
  intro other apart _
  have differ : other ≠ (arena.push parent frame).1 := fun same => apart (List.mem_singleton.2 same)
  unfold push at differ ⊢
  unfold face?
  cases unused : arena.free with
  | nil =>
    simp only [unused] at differ
    have elsewhere : other.slot ≠ arena.slots.size := fun same => differ (congrArg ScopeId.mk same)
    simp [scope?, Array.getElem?_push, elsewhere]
  | cons slot rest =>
    simp only [unused] at differ
    have elsewhere : slot ≠ other.slot := fun same => differ (congrArg ScopeId.mk same.symm)
    simp [scope?, elsewhere]

theorem spares_modify (arena : Arena) (id : ScopeId) (change : Scope → Scope) :
    arena.Spares [id] (arena.modify id change) := by
  intro other apart _
  have elsewhere : other ≠ id := fun same => apart (List.mem_singleton.2 same)
  unfold face?
  rw [scope?_modify, if_neg elsewhere]

theorem spares_assign (arena : Arena) (id : ScopeId) (name : String) (value : Value) :
    arena.Spares [id] (arena.assign id name value) :=
  arena.spares_modify id _

theorem spares_capture (arena : Arena) (id : ScopeId) : arena.Spares [] (arena.capture id) := by
  intro other _ _
  unfold face? capture
  rw [scope?_modify]
  split
  · rename_i same
    subst same
    cases arena.scope? other <;> rfl
  · rfl

theorem spares_of_gone (gone : ∀ id, after.scope? id = before.scope? id ∨ after.scope? id = none) :
    before.Spares [] after := by
  intro id _ present
  rcases gone id with same | gone
  · exact congrArg (Option.map Scope.face) same
  · rw [gone] at present
    cases present

theorem spares_release (arena : Arena) (id : ScopeId) : arena.Spares [] (arena.release id).2 := by
  refine spares_of_gone fun other => ?_
  unfold release
  split
  · exact .inl rfl
  · rename_i scope present
    split
    · exact .inl rfl
    · have inside := size_of_scope? present
      by_cases same : id.slot = other.slot
      · exact .inr (by simp [scope?, ← same, inside])
      · exact .inl (by simp [scope?, same])

theorem spares_collect (arena : Arena) (heap : Heap) (roots : List ScopeId) (values : List Value) :
    arena.Spares [] (arena.collect heap roots values).2 := by
  refine spares_of_gone fun other => ?_
  unfold collect
  simp only [scope?, getElem?_sweep]
  split
  · exact .inr rfl
  · exact .inl rfl

theorem spares_assignAll (arena : Arena) (id : ScopeId) (bindings : List (String × Value)) :
    arena.Spares [id]
      (bindings.foldl (fun arena binding => arena.assign id binding.1 binding.2) arena) := by
  induction bindings generalizing arena with
  | nil => exact (spares_refl arena).widen (by simp)
  | cons first rest ih =>
    exact ((arena.spares_assign id first.1 first.2).trans (ih _)).widen (by simp)

end Arena

namespace Memory

variable {memory : Memory} {id : ScopeId}

@[simp] theorem heap_enter (memory : Memory) (closure : Closure) (arguments : List Value) :
    (memory.enter closure arguments).2.heap = memory.heap := rfl

@[simp] theorem heap_release (memory : Memory) (id : ScopeId) (stack : Stack) :
    (memory.release id stack).heap = memory.heap := by
  obtain ⟨heap, scopes⟩ := memory
  unfold release
  dsimp only
  split <;> rfl

theorem spares_collect (memory : Memory) (stack : Stack) :
    memory.scopes.Spares [] (memory.collect stack).scopes :=
  memory.scopes.spares_collect _ _ _

theorem spares_enter (memory : Memory) (closure : Closure) (arguments : List Value) :
    memory.scopes.Spares [(memory.enter closure arguments).1]
      (memory.enter closure arguments).2.scopes :=
  ((memory.scopes.spares_push closure.scope (some ⟨closure.name, closure.parameters⟩)).trans
    (Arena.spares_assignAll _ _ (closure.parameters.zip arguments))).widen
      fun _ inside => (List.mem_append.1 inside).elim id id

theorem spares_release (memory : Memory) (id : ScopeId) (stack : Stack) :
    memory.scopes.Spares [] (memory.release id stack).scopes := by
  have left := memory.scopes.spares_release id
  obtain ⟨heap, scopes⟩ := memory
  unfold release
  dsimp only
  split
  · exact left.trans (spares_collect ⟨heap, _⟩ stack)
  · exact left

end Memory

end TabScript
