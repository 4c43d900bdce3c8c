import TabScript.Proofs.Frames.Arena
import TabScript.Proofs.Stack.Kept
import TabScript.Proofs.Values.Keeps

/-! What all values in reach have.

Scopes and arrays are only read, extended and given back, so what all their values have stays with them as
long as every new value has it too. -/

set_option autoImplicit false

namespace TabScript

variable {holds : Value → Prop}

structure Value.Common (holds : Value → Prop) : Prop extends Value.Plain holds where
  array (ref : ArrayRef) : holds (.array ref)
  builtin (builtin : Builtin) : holds (.function (.builtin builtin))

theorem Value.Common.literal (common : Value.Common holds) (value : Option Literal) :
    holds (.ofLiteral value) := by
  rcases value with _ | _ | _ | _
  · exact common.none
  · exact common.boolean _
  · exact common.number _
  · exact common.text _

def Heap.All (holds : Value → Prop) (heap : Heap) : Prop :=
  ∀ ref, ∀ item ∈ heap.items ref, holds item

namespace Heap

variable {heap changed : Heap}

theorem All.keeps (all : heap.All holds) (common : Value.Common holds) : heap.Keeps holds :=
  ⟨common.toPlain, fun _ => all _⟩

theorem All.allocate (all : heap.All holds) {items : List Value} (new : ∀ item ∈ items, holds item) :
    (heap.allocate items).2.All holds := by
  intro ref item inside
  rcases mem_items_allocate inside with old | ⟨-, made⟩
  · exact all ref item old
  · exact new item made

theorem all_makes (common : Value.Common holds) : Makes (fun heap => heap.All holds) fun _ => holds where
  keeps all := all.keeps common
  allocate all new := ⟨all.allocate new, common.array _⟩
  grows _ _ known := known

theorem All.changes {values : List Value} (all : heap.All holds) (common : Value.Common holds)
    (changes : heap.Changes values changed) (known : ∀ value ∈ values, holds value) :
    changed.All holds := by
  obtain ⟨ref, items, rfl, kept⟩ := changes
  intro other item inside
  rcases mem_items_update inside with old | new
  · exact all other item old
  · exact (kept holds (all.keeps common) known).2 item new

end Heap

def Arena.All (holds : Value → Prop) (arena : Arena) : Prop :=
  ∀ id scope, arena.scope? id = some scope → ∀ bound ∈ scope.bindings, holds bound.2

namespace Arena

variable {arena before after : Arena} {id : ScopeId}

theorem mem_chainWithin {room : Nat} {scope : Scope} (inside : scope ∈ arena.chainWithin room id) :
    ∃ place, arena.scope? place = some scope := by
  induction room generalizing id with
  | zero => cases inside
  | succ room ih =>
    rw [chainWithin] at inside
    cases present : arena.scope? id with
    | none =>
      rw [present] at inside
      cases inside
    | some first =>
      simp only [present] at inside
      cases parent : first.parent with
      | none =>
        simp only [parent] at inside
        exact ⟨id, by rw [present, List.mem_singleton.1 inside]⟩
      | some outer =>
        simp only [parent] at inside
        rcases List.mem_cons.1 inside with rfl | further
        · exact ⟨id, present⟩
        · exact ih further

theorem mem_of_get? {bindings : Bindings} {name : String} {value : Value}
    (found : bindings.get? name = some value) : ∃ bound ∈ bindings, bound.2 = value := by
  induction bindings with
  | nil => cases found
  | cons first rest ih =>
    rw [Bindings.get?] at found
    split at found
    · cases found
      exact ⟨first, List.mem_cons_self, rfl⟩
    · obtain ⟨bound, inside, same⟩ := ih found
      exact ⟨bound, List.mem_cons_of_mem _ inside, same⟩

theorem All.lookup (all : arena.All holds) {name : String} {value : Value}
    (found : arena.lookup id name = some value) : holds value := by
  obtain ⟨scope, inside, bound⟩ := List.exists_of_findSome?_eq_some found
  obtain ⟨place, present⟩ := mem_chainWithin inside
  obtain ⟨pair, here, rfl⟩ := mem_of_get? bound
  exact all place scope present pair here

theorem All.spares {opened : List ScopeId} (all : before.All holds) (spares : before.Spares opened after)
    (new : ∀ id ∈ opened, ∀ scope, after.scope? id = some scope →
      ∀ bound ∈ scope.bindings, holds bound.2) : after.All holds := by
  intro id scope present
  by_cases inside : id ∈ opened
  · exact new id inside scope present
  · have same := spares id inside (by rw [present]; rfl)
    rw [face?, present] at same
    obtain ⟨old, stood, face⟩ := Option.map_eq_some_iff.1 same.symm
    have kept : scope.bindings = old.bindings := (congrArg Scope.bindings face).symm
    rw [kept]
    exact all id old stood

theorem All.gone (all : before.All holds) (spares : before.Spares [] after) : after.All holds :=
  all.spares spares (by simp)

theorem All.assign (all : arena.All holds) (id : ScopeId) (name : String) {value : Value}
    (good : holds value) : (arena.assign id name value).All holds := by
  refine all.spares (arena.spares_assign id name value) fun other inside scope present => ?_
  obtain rfl := List.mem_singleton.1 inside
  rw [Arena.assign, scope?_modify, if_pos rfl] at present
  obtain ⟨old, stood, rfl⟩ := Option.map_eq_some_iff.1 present
  intro bound here
  rcases mem_set here with before | rfl
  · exact all other old stood bound before
  · exact good

theorem All.push (all : arena.All holds) (parent : ScopeId) (frame : Option Frame) :
    (arena.push parent frame).2.All holds := by
  refine all.spares (arena.spares_push parent frame) fun other inside scope present => ?_
  obtain rfl := List.mem_singleton.1 inside
  have empty : scope.bindings = [] := by
    unfold Arena.push at present
    cases unused : arena.free with
    | nil =>
      simp only [unused, scope?, Array.getElem?_push, if_true, Option.join_some,
        Option.some.injEq] at present
      rw [← present]
    | cons slot rest =>
      simp only [unused, scope?, Array.getElem?_setIfInBounds, if_true] at present
      split at present
      · cases present
        rfl
      · cases present
  simp [empty]

theorem All.assignAll (all : arena.All holds) (id : ScopeId) {bindings : List (String × Value)}
    (good : ∀ binding ∈ bindings, holds binding.2) :
    (bindings.foldl (fun arena binding => arena.assign id binding.1 binding.2) arena).All holds := by
  induction bindings generalizing arena with
  | nil => exact all
  | cons first rest ih =>
    have assigned := all.assign id first.1 (good first List.mem_cons_self)
    exact ih assigned fun binding inside => good binding (List.mem_cons_of_mem _ inside)

end Arena

structure Memory.All (holds : Value → Prop) (memory : Memory) : Prop where
  heap : memory.heap.All holds
  scopes : memory.scopes.All holds

namespace Memory

variable {memory : Memory} {id : ScopeId}

theorem all_initial (holds : Value → Prop) : Memory.initial.All holds := by
  refine ⟨fun ref item inside => ?_, fun id scope present bound inside => ?_⟩
  · simp [Memory.initial, Heap.items, Heap.empty] at inside
  · rcases id with ⟨_ | slot⟩
    · cases present
      cases inside
    · simp [Memory.initial, Arena.initial, Arena.scope?] at present

theorem All.install (all : memory.All holds) (common : Value.Common holds) (name : String)
    (native : Native) : (memory.install name native).All holds :=
  ⟨all.heap, all.scopes.assign Arena.global name (common.builtin _)⟩

theorem All.enter (all : memory.All holds) {closure : Closure} {arguments : List Value}
    (given : ∀ argument ∈ arguments, holds argument) :
    (memory.enter closure arguments).2.All holds := by
  refine ⟨all.heap, ?_⟩
  have opened := all.scopes.push closure.scope (some ⟨closure.name, closure.parameters⟩)
  exact opened.assignAll _ fun binding inside => given _ (List.of_mem_zip inside).2

theorem All.collect (all : memory.All holds) (stack : Stack) : (memory.collect stack).All holds :=
  ⟨all.heap, all.scopes.gone (memory.spares_collect stack)⟩

theorem All.release (all : memory.All holds) (id : ScopeId) (stack : Stack) :
    (memory.release id stack).All holds := by
  refine ⟨?_, all.scopes.gone (memory.spares_release id stack)⟩
  rw [heap_release]
  exact all.heap

theorem All.vacate (all : memory.All holds) (stack : Stack) (ended : Except Interrupt Flow) :
    (Stack.vacate Memory.release memory stack ended).All holds := by
  rcases Stack.vacate_cases Memory.release memory stack ended with same | ⟨callee, left, same⟩
  · rw [same]
    exact all
  · rw [same]
    exact all.release callee left

end Memory

end TabScript
