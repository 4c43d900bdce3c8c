import TabScript.Value.Basic

/-! The arrays of a run and the identities of its functions. -/

set_option autoImplicit false

namespace TabScript

structure Heap where
  arrays : Array (List Value)
  identities : Nat

namespace Heap

def empty : Heap := ⟨#[], 0⟩

instance : Inhabited Heap := ⟨empty⟩

def items (heap : Heap) (ref : ArrayRef) : List Value :=
  heap.arrays[ref.index]?.getD []

def allocate (heap : Heap) (items : List Value) : ArrayRef × Heap :=
  (⟨heap.arrays.size⟩, { heap with arrays := heap.arrays.push items })

def update (heap : Heap) (ref : ArrayRef) (items : List Value) : Heap :=
  { heap with arrays := heap.arrays.setIfInBounds ref.index items }

def identify (heap : Heap) : Nat × Heap :=
  (heap.identities, { heap with identities := heap.identities + 1 })

def Has (heap : Heap) (ref : ArrayRef) : Prop := ref.index < heap.arrays.size

theorem has_of_mem {heap : Heap} {ref : ArrayRef} {value : Value} (inside : value ∈ heap.items ref) :
    heap.Has ref := by
  refine Nat.lt_of_not_le fun beyond => ?_
  simp [Heap.items, Array.getElem?_eq_none beyond] at inside

theorem items_allocate_same (heap : Heap) (items : List Value) :
    (heap.allocate items).2.items (heap.allocate items).1 = items := by
  simp [allocate, Heap.items]

theorem items_allocate_of_has (heap : Heap) (items : List Value) {ref : ArrayRef}
    (present : heap.Has ref) : (heap.allocate items).2.items ref = heap.items ref := by
  have inside : ref.index < heap.arrays.size := present
  simp [allocate, Heap.items, Array.getElem?_push, Nat.ne_of_lt inside]

theorem items_update_same {heap : Heap} {ref : ArrayRef} (items : List Value)
    (present : heap.Has ref) : (heap.update ref items).items ref = items := by
  have inside : ref.index < heap.arrays.size := present
  simp [update, Heap.items, inside]

theorem items_update_of_ne (heap : Heap) {ref other : ArrayRef} (items : List Value)
    (differ : other ≠ ref) : (heap.update ref items).items other = heap.items other := by
  have apart : ref.index ≠ other.index := fun same =>
    differ (by cases ref; cases other; simp_all)
  simp [update, Heap.items, apart]

end Heap

inductive Computed where
  | value (value : Value)
  | items (items : List Value)

def Heap.realize (heap : Heap) : Computed → Value × Heap
  | .value value => (value, heap)
  | .items items =>
    let (ref, larger) := heap.allocate items
    (.array ref, larger)

end TabScript
