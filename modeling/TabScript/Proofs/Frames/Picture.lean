import TabScript.Proofs.Checks.Lawful
import TabScript.Proofs.Frames.Statement

/-! What the host is shown of values and scopes depends on the arrays in reach only.

New arrays give the picture of a value more room, but it never needed more than there was: on the way down
to an array every other one is met once. -/

set_option autoImplicit false

namespace TabScript

variable {heap larger : Heap}

theorem Heap.length_le_of_has {refs : List ArrayRef} (distinct : refs.Nodup)
    (present : ∀ ref ∈ refs, heap.Has ref) : refs.length ≤ heap.arrays.size := by
  have indices : (refs.map ArrayRef.index).Nodup := by
    refine List.pairwise_map.2 (distinct.imp fun differ same => differ ?_)
    exact congrArg ArrayRef.mk same
  have inside : refs.map ArrayRef.index ⊆ List.range heap.arrays.size := by
    intro index here
    obtain ⟨ref, there, rfl⟩ := List.mem_map.1 here
    exact List.mem_range.2 (present ref there)
  simpa using indices.length_le_of_subset inside

namespace Value

theorem itemJson_congr {first second : ArrayRef → Json} {value : Value}
    (same : ∀ ref, value = .array ref → first ref = second ref) :
    itemJson first value = itemJson second value := by
  rcases value with _ | _ | _ | _ | ref | ⟨_ | _⟩
  case array => exact same ref rfl
  all_goals rfl

theorem arrayJson_extends (extension : heap.Extends larger) (lawful : heap.Lawful False)
    {room more : Nat} {ancestors : List ArrayRef} {ref : ArrayRef} (distinct : ancestors.Nodup)
    (passed : ∀ ancestor ∈ ancestors, heap.Has ancestor) (present : heap.Has ref)
    (enough : heap.arrays.size < room + ancestors.length)
    (plenty : heap.arrays.size < more + ancestors.length) :
    arrayJson larger more ancestors ref = arrayJson heap room ancestors ref := by
  have few := Heap.length_le_of_has distinct passed
  -- each array that is passed takes one from the room, and at most all arrays are passed
  induction room generalizing more ancestors ref with
  | zero => omega
  | succ room ih =>
    cases more with
    | zero => omega
    | succ more =>
      rw [arrayJson, arrayJson, extension.items_eq present]
      split
      · rfl
      · rename_i new
        refine congrArg Json.array (List.map_congr_left fun item inside => itemJson_congr ?_)
        rintro inner rfl
        have known : heap.Has inner := lawful ref _ inside
        have passed' : ∀ ancestor ∈ ref :: ancestors, heap.Has ancestor := by
          intro ancestor here
          rcases List.mem_cons.1 here with rfl | further
          · exact present
          · exact passed ancestor further
        have distinct' := List.nodup_cons.2 ⟨new, distinct⟩
        refine ih distinct' passed' known ?_ ?_ (Heap.length_le_of_has distinct' passed')
        · rw [List.length_cons]
          omega
        · rw [List.length_cons]
          omega

theorem toJson_extends (extension : heap.Extends larger) (lawful : heap.Lawful False) {value : Value}
    (known : value.Lawful False heap.arrays.size) : value.toJson larger = value.toJson heap := by
  refine itemJson_congr fun ref same => ?_
  subst same
  have grown := extension.size_le
  refine arrayJson_extends extension lawful List.nodup_nil (by simp) known ?_ ?_
  · simp
  · simp only [List.length_nil]
    omega

end Value

namespace Snapshot

def outermost : Snapshot → Snapshot
  | level names frame _ => level names frame none

theorem namesOf_extends (extension : heap.Extends larger) (lawful : heap.Lawful False)
    {bindings : Bindings} (known : ∀ bound ∈ bindings, bound.2.Lawful False heap.arrays.size) :
    namesOf larger bindings = namesOf heap bindings := by
  unfold namesOf
  refine congrArg (fun shown => List.mergeSort shown _) (List.map_congr_left fun bound inside => ?_)
  rw [Value.toJson_extends extension lawful (known bound (List.mem_filter.1 inside).1)]

theorem foldl_around (heap : Heap) {scopes : List Scope} {last : Scope}
    (ends : scopes.getLast? = some last) :
    ∃ inner, scopes.foldl (around heap) none =
      some (level (namesOf heap last.bindings) last.frame inner) := by
  obtain ⟨before, rfl⟩ := List.getLast?_eq_some_iff.1 ends
  rw [List.foldl_append]
  exact ⟨_, rfl⟩

end Snapshot

namespace Arena

variable {arena : Arena} {id : ScopeId}

theorem outermost_snapshot {way : List (ScopeId × Scope)} (outward : arena.Outward id way)
    (short : way.length ≤ arena.slots.size) (ends : (way.map Prod.fst).getLast? = some global)
    (heap : Heap) :
    ∃ scope, arena.scope? global = some scope ∧
      (arena.snapshot heap id).outermost =
        .level (Snapshot.namesOf heap scope.bindings) scope.frame none := by
  rw [List.getLast?_map] at ends
  obtain ⟨⟨place, scope⟩, last, rfl⟩ := Option.map_eq_some_iff.1 ends
  refine ⟨scope, outward.present _ (List.mem_of_getLast? last), ?_⟩
  have scopes : (way.map Prod.snd).getLast? = some scope := by
    rw [List.getLast?_map, last]
    rfl
  obtain ⟨inner, pictured⟩ := Snapshot.foldl_around heap scopes
  rw [snapshot, chain, outward.chainWithin_eq short, pictured]
  rfl

theorem snapshot_global {scope : Scope} (present : arena.scope? global = some scope)
    (outermost : scope.parent = none) (heap : Heap) :
    arena.snapshot heap global =
      .level (Snapshot.namesOf heap scope.bindings) scope.frame none := by
  have outward : arena.Outward global [(global, scope)] := .last present outermost
  have inside : 1 ≤ arena.slots.size := size_of_scope? present
  rw [snapshot, chain, outward.chainWithin_eq inside]
  rfl

end Arena

end TabScript
