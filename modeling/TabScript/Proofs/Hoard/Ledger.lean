import TabScript.Proofs.Hoard.Relocation
import TabScript.Proofs.Values.Keeps

/-! What holds of values and memories while some scopes are still there and others are not.

A ledger names the scopes that are there, by numbers that are never used again, and says where each of
them stands. Values are admitted that lead to such scopes only. -/

set_option autoImplicit false

namespace TabScript

/-- Scopes that are `live` stand at their place. Functions lead only to scopes that are `kept`: these
are captured. Values are admitted through `arrays`. Numbers from `count` on were never used. The
events and calls are those before the statement. -/
structure Ledger where
  place : ScopeId → ScopeId
  live : ScopeId → Prop
  kept : ScopeId → Prop
  arrays : ArrayRef → Prop
  count : Nat
  events : List Event
  calls : List HostCall

namespace Ledger

variable (ledger : Ledger)

def Admits : Value → Prop
  | .function (.closure made) => ledger.kept made.scope
  | .array ref => ledger.arrays ref
  | _ => True

def AdmitsComputed : Computed → Prop
  | .value value => ledger.Admits value
  | .items items => ∀ item ∈ items, ledger.Admits item

end Ledger

/-- Admitted arrays hold admitted values; an array that is not made yet is admitted beforehand. -/
structure Heap.Closed (ledger : Ledger) (heap : Heap) : Prop where
  items {ref : ArrayRef} : ledger.arrays ref → ∀ item ∈ heap.items ref, ledger.Admits item
  fresh {ref : ArrayRef} : heap.arrays.size ≤ ref.index → ledger.arrays ref

/-- Live scopes hold admitted values and stand inside kept ones, which are older. -/
structure Scope.Closed (ledger : Ledger) (id : ScopeId) (scope : Scope) : Prop where
  parent {outer : ScopeId} : scope.parent = some outer → ledger.kept outer ∧ outer.slot < id.slot
  outermost : scope.parent = none → id = Arena.global
  bindings : ∀ bound ∈ scope.bindings, ledger.Admits bound.2
  captured : ledger.kept id → scope.captured = true

structure Arena.Closed (ledger : Ledger) (arena : Arena) : Prop where
  unused : arena.free = []
  size : arena.slots.size = ledger.count
  global : ledger.kept global
  live {id : ScopeId} : ledger.kept id → ledger.live id
  scope {id : ScopeId} : ledger.live id → ∃ scope, arena.scope? id = some scope ∧ scope.Closed ledger id

/-- The live scopes stand at their places, one at each, and nothing else stands anywhere. No scope that
was opened later ever stood at the place of a live one. -/
structure Arena.Mirrors (ledger : Ledger) (slim full : Arena) : Prop where
  scope_eq {id : ScopeId} : ledger.live id →
    slim.scope? (ledger.place id) = (full.scope? id).map (Scope.relocate ledger.place)
  apart {id other : ScopeId} : ledger.live id → ledger.live other →
    ledger.place id = ledger.place other → id = other
  last {id : ScopeId} {number : Nat} : ledger.live id → id.slot < number → number < ledger.count →
    ledger.place ⟨number⟩ ≠ ledger.place id
  occupied {place : ScopeId} : (slim.scope? place).isSome → ∃ id, ledger.live id ∧ ledger.place id = place
  vacant {slot : Nat} : slot ∈ slim.free → slim.slots[slot]? = some none
  nodup : slim.free.Nodup

/-- A memory that gives scopes back beside one that keeps them all. -/
structure Memory.Mirrors (ledger : Ledger) (slim full : Memory) : Prop where
  heap_eq : slim.heap = full.heap.relocate ledger.place
  heap : full.heap.Closed ledger
  scopes : full.scopes.Closed ledger
  mirrors : slim.scopes.Mirrors ledger full.scopes

theorem Ledger.admits_plain (ledger : Ledger) : Value.Plain ledger.Admits :=
  ⟨trivial, fun _ => trivial, fun _ => trivial, fun _ => trivial⟩

variable {ledger : Ledger}

namespace Heap

theorem Closed.allocate {heap : Heap} (closed : heap.Closed ledger) {items : List Value}
    (admitted : ∀ item ∈ items, ledger.Admits item) :
    ledger.Admits (.array (heap.allocate items).1) ∧ (heap.allocate items).2.Closed ledger := by
  refine ⟨closed.fresh (Nat.le_refl _), ?_, ?_⟩
  · intro ref known item inside
    rcases mem_items_allocate inside with old | ⟨-, new⟩
    · exact closed.items known item old
    · exact admitted item new
  · intro ref beyond
    refine closed.fresh ?_
    simp only [Heap.allocate, Array.size_push] at beyond
    omega

theorem Closed.update {heap : Heap} (closed : heap.Closed ledger) {ref : ArrayRef}
    {items : List Value} (admitted : ∀ item ∈ items, ledger.Admits item) :
    (heap.update ref items).Closed ledger := by
  constructor
  · intro other known item inside
    rcases mem_items_update inside with old | new
    · exact closed.items known item old
    · exact admitted item new
  · intro other beyond
    exact closed.fresh (by simpa [Heap.update] using beyond)

theorem Closed.keeps {heap : Heap} (closed : heap.Closed ledger) : heap.Keeps ledger.Admits :=
  ⟨ledger.admits_plain, closed.items⟩

theorem Closed.changes {values : List Value} {heap changed : Heap} (closed : heap.Closed ledger)
    (changes : heap.Changes values changed) (admitted : ∀ value ∈ values, ledger.Admits value) :
    changed.Closed ledger := by
  obtain ⟨ref, items, rfl, kept⟩ := changes
  exact closed.update (kept ledger.Admits closed.keeps admitted).2

theorem closed_makes (ledger : Ledger) : Makes (Heap.Closed ledger) fun _ => ledger.Admits where
  keeps closed := closed.keeps
  allocate closed admitted := (closed.allocate admitted).symm
  grows _ _ admitted := admitted

end Heap

theorem Ledger.admitsComputed_iff {computed : Computed} :
    ledger.AdmitsComputed computed ↔ computed.All ledger.Admits := by
  cases computed <;> exact Iff.rfl

end TabScript
