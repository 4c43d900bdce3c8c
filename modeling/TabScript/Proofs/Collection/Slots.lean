import TabScript.Proofs.Collection.Tally

/-! Slots that are taken, given back and taken again.

Slots become empty when a call is left and when scopes are collected, and both put them on the list of free
slots. Whoever asks may hold an id of long ago. Still no slot is on that list twice, and none on it holds a
scope, so that two calls never share one. -/

set_option autoImplicit false

namespace TabScript.Arena

inductive Operation where
  | push (parent : ScopeId) (frame : Option Frame)
  | release (id : ScopeId)
  | capture (id : ScopeId)
  | assign (id : ScopeId) (name : String) (value : Value)
  | collect (heap : Heap) (roots : List ScopeId) (values : List Value)

def perform (arena : Arena) : Operation → Arena
  | .push parent frame => (arena.push parent frame).2
  | .release id => (arena.release id).2
  | .capture id => arena.capture id
  | .assign id name value => arena.assign id name value
  | .collect heap roots values => (arena.collect heap roots values).2

def performAll (operations : List Operation) : Arena := operations.foldl perform initial

/-- The free slots are the empty ones, each of them noted once, and the first slot holds the global scope. -/
structure Sound (arena : Arena) : Prop where
  nodup : arena.free.Nodup
  free_iff {slot : Nat} : slot ∈ arena.free ↔ arena.slots[slot]? = some none
  global : ∃ scope, arena.scope? global = some scope ∧ scope.parent = none ∧ scope.captured = true

variable {arena : Arena} {id : ScopeId}

theorem scope?_eq_some_iff {scope : Scope} :
    arena.scope? id = some scope ↔ arena.slots[id.slot]? = some (some scope) := by
  rw [scope?, Option.join_eq_some_iff]

theorem sound_initial : initial.Sound where
  nodup := List.nodup_nil
  free_iff {slot} := by
    refine ⟨nofun, fun empty => ?_⟩
    obtain ⟨inside, content⟩ := Array.getElem?_eq_some_iff.1 empty
    obtain rfl : slot = 0 := Nat.lt_one_iff.1 inside
    cases content
  global := ⟨_, rfl, rfl, rfl⟩

/-! What becomes of single slots. -/

section
variable (sound : arena.Sound)
include sound

theorem Sound.vacant : ∀ slot ∈ arena.free, arena.slots[slot]? = some none := fun _ => sound.free_iff.1

/-- A new scope gets the slot on top of the free ones, or one behind all others, and nothing else is written. -/
theorem Sound.getElem?_push (parent : ScopeId) (frame : Option Frame) (slot : Nat) :
    (arena.push parent frame).2.slots[slot]? =
      if slot = (arena.push parent frame).1.slot then some (some ⟨some parent, [], frame, false⟩)
      else arena.slots[slot]? := by
  unfold push
  cases unused : arena.free with
  | nil => exact Array.getElem?_push
  | cons first rest =>
    have empty := sound.vacant first (unused ▸ List.mem_cons_self)
    have inside := (Array.getElem?_eq_some_iff.1 empty).1
    simp only [Array.getElem?_setIfInBounds, inside, if_true, eq_comm (a := slot)]

end

theorem release_cases (arena : Arena) (id : ScopeId) :
    (∃ scope, arena.scope? id = some scope ∧ scope.captured = false ∧ (arena.release id).1 = true ∧
        (arena.release id).2.free = id.slot :: arena.free ∧
        ∀ slot, (arena.release id).2.slots[slot]? = if slot = id.slot then some none else arena.slots[slot]?) ∨
      ((∀ scope, arena.scope? id = some scope → scope.captured = true) ∧ (arena.release id).1 = false ∧
        (arena.release id).2.free = arena.free ∧ (arena.release id).2.slots = arena.slots) := by
  unfold release
  cases present : arena.scope? id with
  | none => exact .inr ⟨nofun, rfl, rfl, rfl⟩
  | some scope =>
    cases captured : scope.captured with
    | true =>
      refine .inr ⟨fun other same => ?_, by simp [captured]⟩
      exact Option.some.inj same ▸ captured
    | false =>
      have inside := size_of_scope? present
      refine .inl ⟨scope, rfl, captured, by simp [captured], by simp [captured], fun slot => ?_⟩
      simp only [captured, Bool.false_eq_true, if_false, Array.getElem?_setIfInBounds, inside, if_true,
        eq_comm (a := slot)]

/-- A slot that is emptied by a collection held a scope and becomes free; the others stay as they are. -/
theorem getElem?_collect (arena : Arena) (heap : Heap) (roots : List ScopeId) (values : List Value) (slot : Nat) :
    (arena.collect heap roots values).2.slots[slot]? =
      if slot ∈ arena.garbage (arena.reached heap roots values) then some none else arena.slots[slot]? := by
  have within : slot ∈ arena.garbage (arena.reached heap roots values) → slot < arena.slots.size := by
    intro garbage
    obtain ⟨scope, present⟩ := Option.isSome_iff_exists.1 (mem_garbage.1 garbage).1
    exact size_of_scope? present
  refine (getElem?_sweep arena.slots (arena.garbage (arena.reached heap roots values)) slot).trans ?_
  simp only [and_iff_left_of_imp within]

/-! What every operation preserves. -/

section
variable (sound : arena.Sound)
include sound

theorem Sound.push (parent : ScopeId) (frame : Option Frame) : (arena.push parent frame).2.Sound := by
  have elsewhere := sound.getElem?_push parent frame
  have fresh := (scope?_push arena sound.vacant parent frame).1
  refine ⟨(free_push arena sound.vacant sound.nodup parent frame).2, fun {slot} => ?_, ?_⟩
  · -- the free slots are those of before without the one that is taken
    rw [elsewhere]
    cases unused : arena.free with
    | nil =>
      have none_ : slot ∉ arena.free := unused ▸ List.not_mem_nil
      have taken : (arena.push parent frame).2.free = [] := by simp only [Arena.push, unused]
      rw [taken]
      split
      · exact iff_of_false List.not_mem_nil fun filled => by cases filled
      · exact iff_of_false List.not_mem_nil (mt sound.free_iff.2 none_)
    | cons first rest =>
      obtain ⟨once, -⟩ := List.nodup_cons.1 (unused ▸ sound.nodup)
      have before : slot ∈ first :: rest ↔ _ := unused ▸ sound.free_iff
      have place : (arena.push parent frame).1.slot = first := by simp only [Arena.push, unused]
      have taken : (arena.push parent frame).2.free = rest := by simp only [Arena.push, unused]
      rw [place, taken]
      split
      · rename_i same
        subst same
        exact iff_of_false once fun filled => by cases filled
      · rename_i other
        rw [← before, List.mem_cons, or_iff_right other]
  · obtain ⟨scope, present, outermost⟩ := sound.global
    refine ⟨scope, ?_, outermost⟩
    rw [(scope?_push arena sound.vacant parent frame).2.2 Arena.global fun same => ?_]
    · exact present
    · rw [← same, present] at fresh
      cases fresh

theorem Sound.release (id : ScopeId) : (arena.release id).2.Sound := by
  rcases arena.release_cases id with ⟨scope, present, open_, -, free, slots⟩ | ⟨-, -, free, slots⟩
  · have filled := scope?_eq_some_iff.1 present
    refine ⟨?_, fun {slot} => ?_, ?_⟩
    · -- the slot held a scope, and so it was not free before
      refine free ▸ List.nodup_cons.2 ⟨fun again => ?_, sound.nodup⟩
      cases filled.symm.trans (sound.free_iff.1 again)
    · rw [free, slots, List.mem_cons, sound.free_iff]
      split
      · rename_i same
        exact iff_of_true (.inl same) rfl
      · rename_i other
        exact or_iff_right other
    · obtain ⟨outer, there, outermost, captured⟩ := sound.global
      refine ⟨outer, ?_, outermost, captured⟩
      rw [scope?_eq_some_iff, slots, if_neg fun same => ?_]
      · exact scope?_eq_some_iff.1 there
      · -- the global scope is captured for ever
        rw [scope?_eq_some_iff, same, filled] at there
        cases there
        cases open_.symm.trans captured
  · refine ⟨free ▸ sound.nodup, fun {slot} => ?_, ?_⟩
    · rw [free, slots]
      exact sound.free_iff
    · simpa only [scope?, slots] using sound.global

/-- A change of what a scope holds makes no slot empty and fills none. -/
theorem Sound.modify (id : ScopeId) {change : Scope → Scope} (parent : ∀ scope, (change scope).parent = scope.parent)
    (captured : ∀ scope, scope.captured = true → (change scope).captured = true) :
    (arena.modify id change).Sound := by
  refine ⟨sound.nodup, fun {slot} => ?_, ?_⟩
  · refine Iff.trans sound.free_iff ?_
    rw [Arena.modify, Array.getElem?_modify]
    split
    · cases arena.slots[slot]? with
      | none => exact Iff.rfl
      | some content => cases content <;> simp
    · exact Iff.rfl
  · obtain ⟨scope, present, outermost, kept⟩ := sound.global
    rw [scope?_modify]
    split
    · rename_i same
      rw [← same, present]
      exact ⟨change scope, rfl, (parent scope).trans outermost, captured scope kept⟩
    · exact ⟨scope, present, outermost, kept⟩

theorem Sound.collect (heap : Heap) (roots : List ScopeId) (values : List Value) :
    (arena.collect heap roots values).2.Sound := by
  have slots := arena.getElem?_collect heap roots values
  have free : (arena.collect heap roots values).2.free =
    (arena.garbage (arena.reached heap roots values)).reverse ++ arena.free := rfl
  refine ⟨?_, fun {slot} => ?_, ?_⟩
  · rw [free]
    refine List.nodup_append.2 ⟨?_, sound.nodup, ?_⟩
    · exact List.pairwise_reverse.2 ((List.nodup_range.filter _).imp Ne.symm)
    · -- what is collected held a scope, and so it was not free before
      rintro slot freed _ unused rfl
      have filled := (mem_garbage.1 (List.mem_reverse.1 freed)).1
      rw [scope?, sound.free_iff.1 unused] at filled
      cases filled
  · rw [free, slots, List.mem_append, List.mem_reverse, sound.free_iff]
    split
    · rename_i garbage
      exact iff_of_true (.inl garbage) rfl
    · rename_i stays
      exact or_iff_right stays
  · obtain ⟨scope, present, kept⟩ := sound.global
    rcases arena.scope?_collect heap roots values Arena.global with ⟨-, same⟩ | ⟨needless, -⟩
    · exact ⟨scope, same.trans present, kept⟩
    · exact absurd .global needless

theorem Sound.perform (operation : Operation) : (arena.perform operation).Sound := by
  cases operation with
  | push parent frame => exact sound.push parent frame
  | release id => exact sound.release id
  | capture id => exact sound.modify id (fun _ => rfl) fun _ _ => rfl
  | assign id name value => exact sound.modify id (fun _ => rfl) fun _ kept => kept
  | collect heap roots values => exact sound.collect heap roots values

end

theorem sound_performAll (operations : List Operation) : (performAll operations).Sound :=
  List.foldlRecOn operations perform sound_initial fun _ sound operation _ => sound.perform operation

/-! How many slots are free. -/

theorem countP_range_getElem? {α : Type} (items : List α) (test : α → Bool) :
    (List.range items.length).countP (fun index => (items[index]?).any test) = items.countP test := by
  have places : (List.range items.length).map (fun index => items[index]?) = items.map some := by
    refine List.ext_getElem (by simp) fun index _ _ => ?_
    simp
  have counted := congrArg (List.countP fun found => Option.any test found) places
  rwa [List.countP_map, List.countP_map] at counted

theorem Sound.length_free (sound : arena.Sound) : arena.live + arena.free.length = arena.slots.size := by
  have free : arena.free.Perm
      ((List.range arena.slots.size).filter fun slot => (arena.slots[slot]?).any Option.isNone) := by
    refine (List.perm_ext_iff_of_nodup sound.nodup (List.nodup_range.filter _)).2 fun slot => ?_
    rw [sound.free_iff, List.mem_filter, List.mem_range]
    constructor
    · intro empty
      exact ⟨(Array.getElem?_eq_some_iff.1 empty).1, by rw [empty]; rfl⟩
    · rintro ⟨-, empty⟩
      obtain ⟨content, found, none_⟩ := (Option.any_eq_true _ _).1 empty
      rw [found, Option.isNone_iff_eq_none.1 none_]
  have counted : arena.free.length = arena.slots.toList.countP Option.isNone := by
    rw [← countP_range_getElem? arena.slots.toList, free.length_eq, ← List.countP_eq_length_filter,
      Array.length_toList]
    simp only [Array.getElem?_toList]
  have taken : arena.live = arena.slots.toList.countP Option.isSome := (Array.countP_toList ..).symm
  rw [counted, taken, ← Array.length_toList, List.length_eq_countP_add_countP Option.isSome]
  congr 2
  funext content
  cases content <;> rfl

/-- After any operations, with whatever ids and values: the free slots are the empty ones, each noted once;
the first slot holds a scope without a parent; a scope is opened in a slot without one, and no other slot is
touched; a call is left by emptying its slot just if the scope there is not captured, and otherwise no slot is
touched; and the slots that are not free are the live ones. -/
theorem slots_recycled (operations : List Operation) :
    let arena := performAll operations
    arena.free.Nodup ∧
    (∀ slot, slot ∈ arena.free ↔ slot < arena.slots.size ∧ arena.scope? ⟨slot⟩ = none) ∧
    (∃ scope, arena.scope? global = some scope ∧ scope.parent = none) ∧
    (∀ parent frame,
      arena.scope? (arena.push parent frame).1 = none ∧
      (arena.push parent frame).2.scope? (arena.push parent frame).1 = some ⟨some parent, [], frame, false⟩ ∧
      ∀ slot, slot ≠ (arena.push parent frame).1.slot →
        (arena.push parent frame).2.slots[slot]? = arena.slots[slot]?) ∧
    (∀ id,
      ((arena.release id).1 = true ↔ ∃ scope, arena.scope? id = some scope ∧ scope.captured = false) ∧
      ((arena.release id).1 = true → (arena.release id).2.scope? id = none ∧
        ∀ slot, slot ≠ id.slot → (arena.release id).2.slots[slot]? = arena.slots[slot]?) ∧
      ((arena.release id).1 = false → (arena.release id).2.slots = arena.slots)) ∧
    arena.live = arena.slots.size - arena.free.length := by
  intro arena
  have sound : arena.Sound := sound_performAll operations
  -- of the operations only the invariant is used from here on
  clear_value arena
  refine ⟨sound.nodup, fun slot => ?_, ?_, fun parent frame => ?_, fun id => ?_, ?_⟩
  · rw [sound.free_iff]
    constructor
    · intro empty
      exact ⟨(Array.getElem?_eq_some_iff.1 empty).1, by rw [scope?, empty]; rfl⟩
    · rintro ⟨inside, empty⟩
      rw [scope?, Array.getElem?_eq_getElem inside] at empty
      rw [Array.getElem?_eq_getElem inside]
      exact congrArg some empty
  · obtain ⟨scope, present, outermost, -⟩ := sound.global
    exact ⟨scope, present, outermost⟩
  · obtain ⟨fresh, filled, -⟩ := scope?_push arena sound.vacant parent frame
    exact ⟨fresh, filled, fun slot other => (sound.getElem?_push parent frame slot).trans (if_neg other)⟩
  · rcases arena.release_cases id with ⟨scope, present, open_, freed, -, slots⟩ | ⟨kept, freed, -, slots⟩
    · refine ⟨iff_of_true freed ⟨scope, present, open_⟩, fun _ => ⟨?_, fun slot other => ?_⟩, fun impossible => ?_⟩
      · rw [scope?, slots, if_pos rfl]
        rfl
      · exact (slots slot).trans (if_neg other)
      · cases freed.symm.trans impossible
    · refine ⟨iff_of_false (by simp [freed]) ?_, fun impossible => ?_, fun _ => slots⟩
      · rintro ⟨scope, present, open_⟩
        cases open_.symm.trans (kept scope present)
      · cases freed.symm.trans impossible
  · have whole := sound.length_free
    omega

end TabScript.Arena
