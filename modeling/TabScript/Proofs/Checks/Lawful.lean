import TabScript.Proofs.Checks.Tree
import TabScript.Proofs.Provenance.Values

/-! Values that name what is there, and functions with proper bodies.

Arrays are never taken away, so a value that names an array still does when the heap has grown. Where the
program was checked, the bodies of all functions are made of proper statements; nothing is said of them
where it was not. -/

set_option autoImplicit false

namespace TabScript

def Value.Lawful (checked : Prop) (count : Nat) : Value → Prop
  | .array ref => ref.index < count
  | .function (.closure made) => checked → Node.AreProper made.body
  | _ => True

def Heap.Lawful (checked : Prop) (heap : Heap) : Prop :=
  ∀ ref, ∀ item ∈ heap.items ref, item.Lawful checked heap.arrays.size

def Arena.Lawful (checked : Prop) (count : Nat) (arena : Arena) : Prop :=
  ∀ id scope, arena.scope? id = some scope → ∀ bound ∈ scope.bindings, bound.2.Lawful checked count

abbrev Memory.size (memory : Memory) : Nat := memory.heap.arrays.size

structure Memory.Lawful (checked : Prop) (memory : Memory) : Prop where
  heap : memory.heap.Lawful checked
  scopes : memory.scopes.Lawful checked memory.size

structure Closure.Callable (checked : Prop) (count : Nat) (closure : Closure) (arguments : List Value) :
    Prop where
  proper : checked → Node.AreProper closure.body
  given : ∀ argument ∈ arguments, argument.Lawful checked count

def Work.IsProper : Work → Prop
  | .statements remaining => Node.AreProper remaining
  | .header loop => loop.IsProper

def Sequel.IsProper : Sequel → Prop
  | .recheck loop => loop.IsProper
  | .nothing | .return => True

structure Activity.Lawful (checked : Prop) (count : Nat) (activity : Activity) : Prop where
  work : checked → activity.work.IsProper
  sequel : checked → activity.sequel.IsProper
  replay : activity.replay.All (Value.Lawful checked count)

def Continuation.Lawful (checked : Prop) (count : Nat) : Continuation → Prop
  | .entering closure arguments => closure.Callable checked count arguments
  | .running activity => activity.Lawful checked count

def Flow.Lawful (checked : Prop) (count : Nat) : Flow → Prop
  | .next => True
  | .enter inner => inner.Lawful checked count
  | .leave value => value.Lawful checked count

variable {checked : Prop} {count larger : Nat}

namespace Value

theorem lawful_plain (checked : Prop) (count : Nat) : Plain (Lawful checked count) :=
  ⟨trivial, fun _ => trivial, fun _ => trivial, fun _ => trivial⟩

theorem lawful_ofLiteral (value : Option Literal) : (ofLiteral value).Lawful checked count := by
  rcases value with _ | _ | _ | _ <;> trivial

theorem Lawful.mono {value : Value} (lawful : value.Lawful checked count) (grows : count ≤ larger) :
    value.Lawful checked larger := by
  rcases value with _ | _ | _ | _ | ref | ⟨made | _⟩
  case array => exact Nat.lt_of_lt_of_le lawful grows
  case function.closure => exact lawful
  all_goals trivial

end Value

namespace Heap

variable {heap changed : Heap}

theorem size_allocate (heap : Heap) (items : List Value) :
    (heap.allocate items).2.arrays.size = heap.arrays.size + 1 := by
  simp [allocate]

theorem size_update (heap : Heap) (ref : ArrayRef) (items : List Value) :
    (heap.update ref items).arrays.size = heap.arrays.size := by
  simp [update]

theorem Lawful.keeps (lawful : heap.Lawful checked) :
    heap.Keeps (Value.Lawful checked heap.arrays.size) :=
  ⟨Value.lawful_plain .., fun _ => lawful _⟩

theorem Lawful.allocate (lawful : heap.Lawful checked) {items : List Value}
    (all : ∀ item ∈ items, item.Lawful checked heap.arrays.size) :
    (heap.allocate items).2.Lawful checked := by
  intro ref item inside
  rw [size_allocate]
  rcases mem_items_allocate inside with old | ⟨-, new⟩
  · exact (lawful ref item old).mono (Nat.le_succ _)
  · exact (all item new).mono (Nat.le_succ _)

theorem lawful_makes (checked : Prop) (count : Nat) :
    Makes (fun heap => heap.Lawful checked ∧ count ≤ heap.arrays.size)
      fun heap value => value.Lawful checked heap.arrays.size where
  keeps good := good.1.keeps
  allocate good all := by
    rw [size_allocate]
    exact ⟨⟨good.1.allocate all, Nat.le_succ_of_le good.2⟩, Nat.lt_succ_self _⟩
  grows items value known := by
    rw [size_allocate]
    exact known.mono (Nat.le_succ _)

theorem Lawful.changes {values : List Value} (lawful : heap.Lawful checked)
    (changes : heap.Changes values changed)
    (all : ∀ value ∈ values, value.Lawful checked heap.arrays.size) :
    changed.Lawful checked ∧ changed.arrays.size = heap.arrays.size := by
  obtain ⟨ref, items, rfl, kept⟩ := changes
  refine ⟨fun other item inside => ?_, size_update heap ref items⟩
  rw [size_update]
  rcases mem_items_update inside with old | new
  · exact lawful other item old
  · exact (kept _ lawful.keeps all).2 item new

end Heap

namespace Arena

variable {arena before after : Arena} {id : ScopeId}

theorem Lawful.mono (lawful : arena.Lawful checked count) (grows : count ≤ larger) :
    arena.Lawful checked larger := fun id scope present bound inside =>
  (lawful id scope present bound inside).mono grows

theorem Lawful.all (lawful : arena.Lawful checked count) : arena.All (Value.Lawful checked count) := lawful

theorem Lawful.lookup (lawful : arena.Lawful checked count) {name : String} {value : Value}
    (found : arena.lookup id name = some value) : value.Lawful checked count :=
  lawful.all.lookup found

theorem Lawful.gone (lawful : before.Lawful checked count) (spares : before.Spares [] after) :
    after.Lawful checked count :=
  lawful.all.gone spares

theorem Lawful.assign (lawful : arena.Lawful checked count) (id : ScopeId) (name : String)
    {value : Value} (good : value.Lawful checked count) :
    (arena.assign id name value).Lawful checked count :=
  lawful.all.assign id name good

end Arena

namespace Memory

variable {memory : Memory} {id : ScopeId}

theorem Lawful.enter (lawful : memory.Lawful checked) {closure : Closure} {arguments : List Value}
    (given : ∀ argument ∈ arguments, argument.Lawful checked memory.size) :
    (memory.enter closure arguments).2.Lawful checked := by
  refine ⟨lawful.heap, ?_⟩
  have opened := lawful.scopes.all.push closure.scope (some ⟨closure.name, closure.parameters⟩)
  exact opened.assignAll _ fun binding inside => given _ (List.of_mem_zip inside).2

theorem Lawful.collect (lawful : memory.Lawful checked) (stack : Stack) :
    (memory.collect stack).Lawful checked :=
  ⟨lawful.heap, lawful.scopes.gone (memory.spares_collect stack)⟩

theorem Lawful.release (lawful : memory.Lawful checked) (id : ScopeId) (stack : Stack) :
    (memory.release id stack).Lawful checked := by
  refine ⟨?_, ?_⟩
  · rw [heap_release]
    exact lawful.heap
  · rw [size, heap_release]
    exact lawful.scopes.gone (memory.spares_release id stack)

end Memory

end TabScript
