import TabScript.Proofs.Hoard.Alike
import TabScript.Proofs.Hoard.Marks

/-! Scopes come and go on one side only.

A scope that is opened takes a place where no live scope stands. A scope that is given back, by the
return of its call or by a collection, is one that nothing leads to. -/

set_option autoImplicit false

namespace TabScript

namespace Ledger

def opening (ledger : Ledger) (scope : ScopeId) : Ledger :=
  { ledger with
    live := fun id => ledger.live id ∨ id = scope
    count := ledger.count + 1 }

def dropping (ledger : Ledger) (scope : ScopeId) : Ledger :=
  { ledger with live := fun id => ledger.live id ∧ id ≠ scope }

end Ledger

variable {ledger : Ledger} {slim full : Memory}

namespace Arena

variable {slim full : Arena}

theorem scope?_eq_none_of_size_le {arena : Arena} {id : ScopeId}
    (beyond : arena.slots.size ≤ id.slot) : arena.scope? id = none := by
  simp [scope?, Array.getElem?_eq_none beyond]

/-- A new scope stands where nothing stood, and everything else stays where it was. -/
theorem scope?_push (arena : Arena) (vacant : ∀ slot ∈ arena.free, arena.slots[slot]? = some none)
    (parent : ScopeId) (frame : Option Frame) :
    arena.scope? (arena.push parent frame).1 = none ∧
      (arena.push parent frame).2.scope? (arena.push parent frame).1 =
        some ⟨some parent, [], frame, false⟩ ∧
      ∀ other, other ≠ (arena.push parent frame).1 →
        (arena.push parent frame).2.scope? other = arena.scope? other := by
  unfold push
  cases unused : arena.free with
  | nil =>
    refine ⟨scope?_eq_none_of_size_le (Nat.le_refl _), by simp [scope?], fun other differ => ?_⟩
    have apart : other.slot ≠ arena.slots.size := fun same => differ (congrArg ScopeId.mk same)
    simp [scope?, Array.getElem?_push, apart]
  | cons slot rest =>
    have empty := vacant slot (by simp [unused])
    have inside := (Array.getElem?_eq_some_iff.1 empty).1
    refine ⟨by simp [scope?, empty], by simp [scope?, inside], fun other differ => ?_⟩
    have apart : slot ≠ other.slot := fun same => differ (congrArg ScopeId.mk same.symm)
    simp [scope?, apart]

theorem free_push (arena : Arena) (vacant : ∀ slot ∈ arena.free, arena.slots[slot]? = some none)
    (nodup : arena.free.Nodup) (parent : ScopeId) (frame : Option Frame) :
    (∀ slot ∈ (arena.push parent frame).2.free,
      (arena.push parent frame).2.slots[slot]? = some none) ∧
      (arena.push parent frame).2.free.Nodup := by
  unfold push
  cases unused : arena.free with
  | nil => simp
  | cons slot rest =>
    rw [unused] at vacant nodup
    obtain ⟨fresh, distinct⟩ := List.nodup_cons.1 nodup
    refine ⟨fun other inside => ?_, distinct⟩
    have apart : slot ≠ other := fun same => fresh (same ▸ inside)
    simp only [Array.getElem?_setIfInBounds_ne apart]
    exact vacant other (List.mem_cons_of_mem _ inside)

theorem Mirrors.push (mirrors : slim.Mirrors ledger full) (closed : full.Closed ledger)
    {parent : ScopeId} (frame : Option Frame)
    (placed : ledger.place (full.push parent frame).1 =
      (slim.push (ledger.place parent) frame).1) :
    (slim.push (ledger.place parent) frame).2.Mirrors (ledger.opening (full.push parent frame).1)
      (full.push parent frame).2 := by
  have opened := scope?_push slim (fun slot => mirrors.vacant)
    (ledger.place parent) frame
  have beside := scope?_push full (by simp [closed.unused]) parent frame
  have unused := free_push slim (fun slot => mirrors.vacant) mirrors.nodup
    (ledger.place parent) frame
  -- no live scope stands at the new place, and the new number was never used
  have elsewhere : ∀ {id : ScopeId}, ledger.live id →
      ledger.place id ≠ ledger.place (full.push parent frame).1 ∧ id ≠ (full.push parent frame).1 := by
    intro id known
    obtain ⟨scope, present, -⟩ := closed.scope known
    constructor
    · intro same
      have there := mirrors.scope_eq known
      rw [same, placed, opened.1, present] at there
      cases there
    · intro same
      rw [same, beside.1] at present
      cases present
  have number : (full.push parent frame).1.slot = ledger.count := by
    simp [Arena.push, closed.unused, closed.size]
  refine ⟨?scope_eq, ?apart, ?last, ?occupied, fun inside => unused.1 _ inside, unused.2⟩
  case scope_eq =>
    rintro id (known | rfl)
    · obtain ⟨apart, differ⟩ := elsewhere known
      rw [placed] at apart
      show Arena.scope? _ (ledger.place id) = _
      rw [opened.2.2 _ apart, beside.2.2 _ differ]
      exact mirrors.scope_eq known
    · show Arena.scope? _ (ledger.place _) = _
      rw [placed, opened.2.1, beside.2.1]
      rfl
  case apart =>
    rintro id other (known | rfl) (there | rfl) same
    · exact mirrors.apart known there same
    · exact absurd same (elsewhere known).1
    · exact absurd same.symm (elsewhere there).1
    · rfl
  case last =>
    rintro id later (known | rfl) after before
    · by_cases old : later < ledger.count
      · exact mirrors.last known after old
      · simp only [Ledger.opening] at before
        obtain rfl : later = (full.push parent frame).1.slot := by omega
        exact (elsewhere known).1.symm
    · simp only [Ledger.opening] at before
      omega
  case occupied =>
    intro place present
    by_cases same : place = (slim.push (ledger.place parent) frame).1
    · exact ⟨_, .inr rfl, placed.trans same.symm⟩
    · rw [opened.2.2 _ same] at present
      obtain ⟨id, known, stands⟩ := mirrors.occupied present
      exact ⟨id, .inl known, stands⟩

theorem Closed.push (closed : full.Closed ledger) {parent : ScopeId} (kept : ledger.kept parent)
    (frame : Option Frame) :
    (full.push parent frame).2.Closed (ledger.opening (full.push parent frame).1) := by
  have opened := scope?_push full (by simp [closed.unused]) parent frame
  have number : (full.push parent frame).1.slot = full.slots.size := by
    simp [Arena.push, closed.unused]
  refine ⟨by simp [Arena.push, closed.unused],
    by simp [Arena.push, closed.unused, closed.size, Ledger.opening], closed.global,
    fun known => .inl (closed.live known), ?_⟩
  rintro id (known | rfl)
  · obtain ⟨scope, present, inside⟩ := closed.scope known
    have differ : id ≠ (full.push parent frame).1 := by
      rintro rfl
      rw [opened.1] at present
      cases present
    exact ⟨scope, (opened.2.2 _ differ).trans present, inside.parent, inside.outermost,
      inside.bindings, inside.captured⟩
  · refine ⟨_, opened.2.1, ?_, (by simp), (by simp), fun again => ?_⟩
    · intro outer same
      obtain rfl := Option.some.inj same
      obtain ⟨scope, present, -⟩ := closed.scope (closed.live kept)
      exact ⟨kept, by rw [number]; exact size_of_scope? present⟩
    · -- Nothing leads to a number that was never used.
      obtain ⟨scope, present, -⟩ := closed.scope (closed.live again)
      rw [opened.1] at present
      cases present

end Arena

theorem Memory.Mirrors.assignAll (mirrors : slim.Mirrors ledger full) {scope : ScopeId}
    (live : ledger.live scope) (bindings : List (String × Value))
    (admitted : ∀ binding ∈ bindings, ledger.Admits binding.2) :
    Memory.Mirrors ledger
      ⟨slim.heap, (Bindings.relocate ledger.place bindings).foldl
        (fun arena binding => arena.assign (ledger.place scope) binding.1 binding.2) slim.scopes⟩
      ⟨full.heap, bindings.foldl
        (fun arena binding => arena.assign scope binding.1 binding.2) full.scopes⟩ := by
  induction bindings generalizing slim full with
  | nil => exact mirrors
  | cons first rest ih =>
    have known := admitted first List.mem_cons_self
    have once : Memory.Mirrors ledger
        ⟨slim.heap, slim.scopes.assign (ledger.place scope) first.1
          (first.2.relocate ledger.place)⟩
        ⟨full.heap, full.scopes.assign scope first.1 first.2⟩ :=
      ⟨mirrors.heap_eq, mirrors.heap, mirrors.scopes.assign known,
        mirrors.mirrors.assign live first.1 first.2⟩
    exact ih once fun binding inside => admitted binding (List.mem_cons_of_mem _ inside)

theorem Memory.Mirrors.enter (mirrors : slim.Mirrors ledger full)
    {closure : Closure} {arguments : List Value} (call : ledger.AdmitsCall closure arguments)
    (placed : ledger.place (full.enter closure arguments).1 =
      (slim.enter (closure.relocate ledger.place)
        (arguments.map (Value.relocate ledger.place))).1) :
    (slim.enter (closure.relocate ledger.place)
        (arguments.map (Value.relocate ledger.place))).2.Mirrors
      (ledger.opening (full.enter closure arguments).1) (full.enter closure arguments).2 := by
  obtain ⟨heap, scopes⟩ := slim
  obtain ⟨heap', scopes'⟩ := full
  have opened : Memory.Mirrors (ledger.opening (scopes'.push closure.scope
        (some ⟨closure.name, closure.parameters⟩)).1)
      ⟨heap, (scopes.push (ledger.place closure.scope)
        (some ⟨closure.name, closure.parameters⟩)).2⟩
      ⟨heap', (scopes'.push closure.scope (some ⟨closure.name, closure.parameters⟩)).2⟩ :=
    ⟨mirrors.heap_eq, ⟨mirrors.heap.items, mirrors.heap.fresh⟩,
      mirrors.scopes.push call.1 _, mirrors.mirrors.push mirrors.scopes _ placed⟩
  have bound := opened.assignAll (.inr rfl) (closure.parameters.zip arguments) (by
    intro binding inside
    exact call.2 _ (List.of_mem_zip inside).2)
  have zipped : Bindings.relocate ledger.place (closure.parameters.zip arguments) =
      closure.parameters.zip (arguments.map (Value.relocate ledger.place)) := by
    rw [List.zip_map_right]
    rfl
  have placed' : ledger.place (scopes'.push closure.scope
        (some ⟨closure.name, closure.parameters⟩)).1 =
      (scopes.push (ledger.place closure.scope) (some ⟨closure.name, closure.parameters⟩)).1 := placed
  simp only [Ledger.opening, zipped, placed'] at bound
  exact bound

namespace Arena

variable {slim full : Arena}

theorem Closed.dropping (closed : full.Closed ledger) {id : ScopeId} (unkept : ¬ledger.kept id) :
    full.Closed (ledger.dropping id) where
  unused := closed.unused
  size := closed.size
  global := closed.global
  live kept := ⟨closed.live kept, fun same => unkept (same ▸ kept)⟩
  scope known := by
    obtain ⟨scope, present, inside⟩ := closed.scope known.1
    exact ⟨scope, present, inside.parent, inside.outermost, inside.bindings, inside.captured⟩

theorem Mirrors.dropping (mirrors : slim.Mirrors ledger full) {id : ScopeId} (live : ledger.live id)
    {scope : Scope} (there : slim.scope? (ledger.place id) = some scope) :
    Mirrors (ledger.dropping id)
      { slim with
        slots := slim.slots.setIfInBounds (ledger.place id).slot none
        free := (ledger.place id).slot :: slim.free } full where
  scope_eq := by
    rintro other ⟨known, differ⟩
    have apart : (ledger.place id).slot ≠ (ledger.place other).slot := fun same =>
      differ (mirrors.apart known live (congrArg ScopeId.mk same).symm)
    refine Eq.trans ?_ (mirrors.scope_eq known)
    simp [scope?, Ledger.dropping, apart]
  apart known there same := mirrors.apart known.1 there.1 same
  last known := mirrors.last known.1
  occupied := by
    intro place filled
    have occupied := size_of_scope? there
    have apart : (ledger.place id).slot ≠ place.slot := by
      intro same
      simp [scope?, ← same, occupied] at filled
    have before : (slim.scope? place).isSome := by simpa [scope?, apart] using filled
    obtain ⟨other, known, stands⟩ := mirrors.occupied before
    exact ⟨other, ⟨known, fun same => apart (by rw [← same, stands])⟩, stands⟩
  vacant := by
    intro slot inside
    by_cases same : (ledger.place id).slot = slot
    · simp [← same, size_of_scope? there]
    · rcases List.mem_cons.1 inside with rfl | inside
      · exact absurd rfl same
      · simpa [same] using mirrors.vacant inside
  nodup := by
    refine List.nodup_cons.2 ⟨fun again => ?_, mirrors.nodup⟩
    have empty := mirrors.vacant again
    simp [scope?, empty] at there

theorem Mirrors.release (mirrors : slim.Mirrors ledger full) (closed : full.Closed ledger)
    {id : ScopeId} (live : ledger.live id) {scope : Scope} (present : full.scope? id = some scope)
    (loose : scope.captured = false) :
    (slim.release (ledger.place id)).1 = true ∧
      (slim.release (ledger.place id)).2.Mirrors (ledger.dropping id) full ∧
      full.Closed (ledger.dropping id) := by
  have there := mirrors.scope_eq live
  rw [present] at there
  have loose' : (scope.relocate ledger.place).captured = false := loose
  have given : slim.release (ledger.place id) = (true,
      { slim with
        slots := slim.slots.setIfInBounds (ledger.place id).slot none
        free := (ledger.place id).slot :: slim.free }) := by
    simp [Arena.release, there, loose']
  have unkept : ¬ledger.kept id := by
    intro kept
    obtain ⟨same, present', inside⟩ := closed.scope live
    rw [present] at present'
    cases present'
    simp [inside.captured kept] at loose
  rw [given]
  exact ⟨rfl, mirrors.dropping live there, closed.dropping unkept⟩

theorem Mirrors.retain (mirrors : slim.Mirrors ledger full) {id : ScopeId} (live : ledger.live id)
    {scope : Scope} (present : full.scope? id = some scope) (captured : scope.captured = true) :
    (slim.release (ledger.place id)).1 = false ∧
      (slim.release (ledger.place id)).2.Mirrors ledger full := by
  have there := mirrors.scope_eq live
  rw [present] at there
  have captured' : (scope.relocate ledger.place).captured = true := captured
  have kept : slim.release (ledger.place id) =
      (false, { slim with retained := slim.retained + 1 }) := by
    simp [Arena.release, there, captured']
  rw [kept]
  exact ⟨rfl, mirrors.scope_eq, mirrors.apart, mirrors.last, mirrors.occupied, mirrors.vacant,
    mirrors.nodup⟩

theorem getElem?_sweep (slots : Array (Option Scope)) (freed : List Nat) (slot : Nat) :
    (freed.foldl (fun slots slot => slots.setIfInBounds slot none) slots)[slot]? =
      if slot ∈ freed ∧ slot < slots.size then some none else slots[slot]? := by
  induction freed generalizing slots with
  | nil => simp
  | cons first rest ih =>
    rw [List.foldl_cons, ih]
    by_cases same : first = slot
    · subst same
      by_cases inside : first < slots.size <;> simp [inside]
    · simp [Array.getElem?_setIfInBounds_ne same, Ne.symm same]

theorem mem_garbage {arena : Arena} {marks : Marks} {slot : Nat} :
    slot ∈ arena.garbage marks ↔
      (arena.scope? ⟨slot⟩).isSome ∧ marks.get? (.scope ⟨slot⟩) ≠ some true := by
  simp only [garbage, List.mem_filter, List.mem_range, Bool.and_eq_true, bne_iff_ne]
  constructor
  · exact fun found => found.2
  · intro found
    obtain ⟨scope, present⟩ := Option.isSome_iff_exists.1 found.1
    exact ⟨size_of_scope? present, found⟩

end Arena

def Ledger.surviving (ledger : Ledger) (marks : Marks) : Ledger :=
  { ledger with
    live := fun id => ledger.live id ∧ marks.Covers (.scope (ledger.place id))
    kept := fun id => ledger.kept id ∧ marks.Covers (.scope (ledger.place id))
    arrays := fun ref => ledger.arrays ref ∧ marks.Covers (.array ref) }

theorem Ledger.admits_surviving {marks : Marks} {value : Value} (admitted : ledger.Admits value)
    (covered : ∀ item ∈ (value.relocate ledger.place).holds, marks.Covers item) :
    (ledger.surviving marks).Admits value := by
  rcases value with _ | _ | _ | _ | _ | ⟨_ | _⟩
  case array ref => exact ⟨admitted, covered _ List.mem_cons_self⟩
  case function.closure made => exact ⟨admitted, covered _ List.mem_cons_self⟩
  all_goals exact admitted

structure Marks.Complete (marks : Marks) (memory : Memory) : Prop where
  scopes : marks.scopes.size = memory.scopes.slots.size
  arrays : marks.arrays.size = memory.heap.arrays.size
  followed {item : Item} : marks.get? item = some true →
    ∀ held ∈ item.holds memory.scopes memory.heap, marks.Covers held

theorem Marks.complete_spread (memory : Memory) (pending : List Item) :
    ((Marks.empty memory.scopes memory.heap).spread memory.scopes memory.heap pending).Complete
        memory ∧
      ∀ item ∈ pending,
        ((Marks.empty memory.scopes memory.heap).spread memory.scopes memory.heap pending).Covers
          item := by
  have sizes := Marks.size_spread memory.scopes memory.heap
    (Marks.empty memory.scopes memory.heap) pending
  obtain ⟨followed, -, reached⟩ := Marks.spread_covers memory.scopes
    memory.heap (Marks.empty memory.scopes memory.heap) pending
    fun item marked => absurd marked (Marks.get?_empty _ _ item)
  refine ⟨⟨sizes.1.trans (by simp [Marks.empty]), sizes.2.trans (by simp [Marks.empty]), ?_⟩, reached⟩
  intro item marked held inside
  exact (followed item marked held inside).resolve_right (by simp)

namespace Memory.Mirrors

variable {marks : Marks} (mirrors : slim.Mirrors ledger full) (complete : marks.Complete slim)
include mirrors complete

theorem marked_of_covers {id : ScopeId} (live : ledger.live id)
    (covered : marks.Covers (.scope (ledger.place id))) :
    marks.get? (.scope (ledger.place id)) = some true := by
  obtain ⟨scope, present, -⟩ := mirrors.scopes.scope live
  have there := mirrors.mirrors.scope_eq live
  rw [present] at there
  have inside : (ledger.place id).slot < marks.scopes.size := by
    rw [complete.scopes]
    exact Arena.size_of_scope? there
  cases mark : marks.get? (.scope (ledger.place id)) with
  | none =>
    simp only [Marks.get?, Array.getElem?_eq_none_iff] at mark
    omega
  | some flag =>
    cases flag with
    | true => rfl
    | false => exact absurd mark covered

theorem surviving_heap : full.heap.Closed (ledger.surviving marks) := by
  constructor
  · intro ref known item inside
    refine Ledger.admits_surviving (mirrors.heap.items known.1 item inside) ?_
    intro held leads
    have mapped : item.relocate ledger.place ∈ slim.heap.items ref := by
      rw [mirrors.heap_eq, Heap.items_relocate]
      exact List.mem_map_of_mem inside
    cases mark : marks.get? (.array ref) with
    | none =>
      simp only [Marks.get?, Array.getElem?_eq_none_iff, complete.arrays] at mark
      simp [Heap.items, Array.getElem?_eq_none mark] at mapped
    | some flag =>
      cases flag with
      | false => exact absurd mark known.2
      | true => exact complete.followed mark held (List.mem_flatMap.2 ⟨_, mapped, leads⟩)
  · intro ref beyond
    refine ⟨mirrors.heap.fresh beyond, ?_⟩
    have absent : marks.arrays.size ≤ ref.index := by
      rw [complete.arrays, mirrors.heap_eq, Heap.size_relocate]
      exact beyond
    simp [Marks.Covers, Marks.get?, Array.getElem?_eq_none absent]

theorem surviving_scopes (global : marks.Covers (.scope Arena.global))
    (fixed : ledger.place Arena.global = Arena.global) :
    full.scopes.Closed (ledger.surviving marks) := by
  have closed := mirrors.scopes
  refine ⟨closed.unused, closed.size, ⟨closed.global, by rwa [fixed]⟩,
    fun kept => ⟨closed.live kept.1, kept.2⟩, ?_⟩
  rintro id ⟨live, covered⟩
  obtain ⟨scope, present, inside⟩ := closed.scope live
  have there := mirrors.mirrors.scope_eq live
  rw [present] at there
  have held : ∀ item ∈ (Item.scope (ledger.place id)).holds slim.scopes slim.heap,
      marks.Covers item :=
    complete.followed (mirrors.marked_of_covers complete live covered)
  simp only [Item.holds, there, Option.map_some] at held
  refine ⟨scope, present, ?_, inside.outermost, ?_, fun kept => inside.captured kept.1⟩
  · intro outer parent
    obtain ⟨kept, older⟩ := inside.parent parent
    refine ⟨⟨kept, held _ (List.mem_append_left _ ?_)⟩, older⟩
    simp [Scope.relocate, parent]
  · intro bound here
    refine Ledger.admits_surviving (inside.bindings bound here) fun item leads => ?_
    have there : (bound.1, bound.2.relocate ledger.place) ∈
        (scope.relocate ledger.place).bindings := List.mem_map.2 ⟨bound, here, rfl⟩
    exact held item (List.mem_append_right _ (List.mem_flatMap.2 ⟨_, there, leads⟩))

theorem surviving_mirrors (retained threshold : Nat) :
    Arena.Mirrors (ledger.surviving marks)
      ⟨(slim.scopes.garbage marks).foldl (fun slots slot => slots.setIfInBounds slot none)
          slim.scopes.slots,
        (slim.scopes.garbage marks).reverse ++ slim.scopes.free, retained, threshold⟩
      full.scopes where
  scope_eq := by
    rintro id ⟨live, covered⟩
    have marked := mirrors.marked_of_covers complete live covered
    have stays : (ledger.place id).slot ∉ slim.scopes.garbage marks := fun garbage =>
      (Arena.mem_garbage.1 garbage).2 marked
    refine Eq.trans ?_ (mirrors.mirrors.scope_eq live)
    simp [Arena.scope?, Arena.getElem?_sweep, stays, Ledger.surviving]
  apart := fun live there same => mirrors.mirrors.apart live.1 there.1 same
  last := fun live => mirrors.mirrors.last live.1
  occupied := by
    intro place filled
    simp only [Arena.scope?, Arena.getElem?_sweep] at filled
    split at filled
    · simp at filled
    · rename_i stays
      obtain ⟨id, live, rfl⟩ := mirrors.mirrors.occupied filled
      obtain ⟨scope, present⟩ := Option.isSome_iff_exists.1 filled
      have inside := Arena.size_of_scope? present
      refine ⟨id, ⟨live, ?_⟩, rfl⟩
      have marked : marks.get? (.scope (ledger.place id)) = some true := by
        by_cases marked : marks.get? (.scope (ledger.place id)) = some true
        · exact marked
        · exact absurd ⟨Arena.mem_garbage.2 ⟨filled, marked⟩, inside⟩ stays
      simp [Marks.Covers, marked]
  vacant := by
    intro slot unused
    simp only [Arena.getElem?_sweep]
    -- a slot is empty because the sweep emptied it, or because it was empty before
    rcases List.mem_append.1 unused with freed | unused
    · have garbage := List.mem_reverse.1 freed
      obtain ⟨scope, present⟩ := Option.isSome_iff_exists.1 (Arena.mem_garbage.1 garbage).1
      rw [if_pos ⟨garbage, Arena.size_of_scope? present⟩]
    · split
      · rfl
      · exact mirrors.mirrors.vacant unused
  nodup := by
    refine List.nodup_append.2 ⟨?_, mirrors.mirrors.nodup, ?_⟩
    · exact List.pairwise_reverse.2 ((List.nodup_range.filter _).imp Ne.symm)
    · intro slot freed other unused same
      subst same
      have filled := (Arena.mem_garbage.1 (List.mem_reverse.1 freed)).1
      have empty := mirrors.mirrors.vacant unused
      simp [Arena.scope?, empty] at filled

end Memory.Mirrors

def Continuation.Admitted (ledger : Ledger) : Continuation → Prop
  | entering closure arguments => ledger.AdmitsCall closure arguments
  | running activity => ledger.live activity.scope ∧ activity.replay.Admitted ledger

theorem Memory.Mirrors.collect (mirrors : slim.Mirrors ledger full)
    (fixed : ledger.place Arena.global = Arena.global) (stack : Stack)
    (admitted : ∀ continuation ∈ stack, continuation.Admitted ledger) :
    ∃ marks : Marks,
      (slim.collect (Stack.relocate ledger.place stack)).Mirrors (ledger.surviving marks) full ∧
        ∀ continuation ∈ stack, continuation.Admitted (ledger.surviving marks) := by
  let roots := (Stack.relocate ledger.place stack).map Continuation.scope
  let values := (Stack.relocate ledger.place stack).flatMap Continuation.values
  let pending := roots.map Item.scope ++ [.scope Arena.global] ++ values.flatMap Value.holds
  obtain ⟨complete, reached⟩ := Marks.complete_spread slim pending
  generalize spread : (Marks.empty slim.scopes slim.heap).spread slim.scopes slim.heap pending =
    marks at complete reached
  -- what the marks start from: the global scope, the scopes of the stack, and what its values hold
  have global : marks.Covers (.scope Arena.global) :=
    reached _ (List.mem_append_left _ (List.mem_append_right _ List.mem_cons_self))
  have scope : ∀ continuation ∈ stack, marks.Covers (.scope (ledger.place continuation.scope)) := by
    intro continuation inside
    refine reached _ (List.mem_append_left _ (List.mem_append_left _ (List.mem_map_of_mem ?_)))
    refine List.mem_map.2 ⟨continuation.relocate ledger.place, List.mem_map_of_mem inside, ?_⟩
    exact Stack.scope_relocate _ _
  have value : ∀ continuation ∈ stack, ∀ value ∈ (continuation.relocate ledger.place).values,
      ∀ item ∈ value.holds, marks.Covers item := by
    intro continuation inside value held item leads
    refine reached _ (List.mem_append_right _ (List.mem_flatMap.2 ⟨value, ?_, leads⟩))
    exact List.mem_flatMap.2 ⟨_, List.mem_map_of_mem inside, held⟩
  refine ⟨marks, ⟨mirrors.heap_eq, mirrors.surviving_heap complete,
    mirrors.surviving_scopes complete global fixed, ?_⟩, fun continuation inside => ?_⟩
  · have swept := mirrors.surviving_mirrors complete 0
      (max Arena.leastThreshold (2 * ((slim.scopes.garbage marks).foldl
        (fun slots slot => slots.setIfInBounds slot none) slim.scopes.slots).countP Option.isSome))
    rw [← spread] at swept ⊢
    exact swept
  · have known := admitted continuation inside
    have rooted := scope continuation inside
    have valued := value continuation inside
    cases continuation with
    | entering closure arguments =>
      refine ⟨⟨known.1, rooted⟩, fun argument given => ?_⟩
      exact Ledger.admits_surviving (known.2 argument given)
        (valued _ (List.mem_map_of_mem given))
    | running activity =>
      refine ⟨⟨known.1, rooted⟩, fun slot done present => ?_⟩
      refine Ledger.admits_surviving (known.2 slot done present) (valued _ ?_)
      refine List.mem_filterMap.2 ⟨some (done.relocate ledger.place), ?_, rfl⟩
      refine Array.mem_toList_iff.2 (Array.mem_of_getElem? (i := slot) ?_)
      simp [Activity.relocate, Replay.relocate, present]

/-- The scope of a call that returned is left behind: at once if nothing leads to it, and otherwise by
some later collection. -/
theorem Memory.Mirrors.release (mirrors : slim.Mirrors ledger full)
    (fixed : ledger.place Arena.global = Arena.global) {id : ScopeId} (live : ledger.live id)
    (stack : Stack) (admitted : ∀ continuation ∈ stack, continuation.Admitted ledger)
    (elsewhere : ∀ activity, .running activity ∈ stack → activity.scope ≠ id) :
    ∃ left : Ledger, left.place = ledger.place ∧
      (slim.release (ledger.place id) (Stack.relocate ledger.place stack)).Mirrors left full ∧
      ∀ continuation ∈ stack, continuation.Admitted left := by
  obtain ⟨heap, scopes⟩ := slim
  obtain ⟨scope, present, -⟩ := mirrors.scopes.scope live
  -- a scope that no function leads to goes at once; a captured one may start a collection
  cases captured : scope.captured with
  | false =>
    obtain ⟨freed, gone, closed⟩ := mirrors.mirrors.release mirrors.scopes live present captured
    refine ⟨ledger.dropping id, rfl, ?_, fun continuation inside => ?_⟩
    · have given : Memory.Mirrors (ledger.dropping id)
          ⟨heap, (scopes.release (ledger.place id)).2⟩ full :=
        ⟨mirrors.heap_eq, ⟨mirrors.heap.items, mirrors.heap.fresh⟩, closed, gone⟩
      simpa [Memory.release, freed] using given
    · have known := admitted continuation inside
      cases continuation with
      | entering closure arguments => exact known
      | running activity => exact ⟨⟨known.1, elsewhere activity inside⟩, known.2⟩
  | true =>
    obtain ⟨stays, counted⟩ := mirrors.mirrors.retain live present captured
    have kept : Memory.Mirrors ledger ⟨heap, (scopes.release (ledger.place id)).2⟩ full :=
      ⟨mirrors.heap_eq, mirrors.heap, mirrors.scopes, counted⟩
    by_cases due : (scopes.release (ledger.place id)).2.wantsCollection
    · obtain ⟨marks, swept, reached⟩ := kept.collect fixed stack admitted
      exact ⟨ledger.surviving marks, rfl, by simpa [Memory.release, stays, due] using swept, reached⟩
    · exact ⟨ledger, rfl, by simpa [Memory.release, stays, due] using kept, admitted⟩

/-- The number of a new scope was never used where all scopes are kept. -/
theorem Memory.fresh_enter (full : Memory) (closed : full.scopes.Closed ledger)
    (closure : Closure) (arguments : List Value) :
    ¬ledger.live (full.enter closure arguments).1 := by
  intro known
  obtain ⟨scope, present, -⟩ := closed.scope known
  obtain ⟨heap, scopes⟩ := full
  have unused : scopes.free = [] := closed.unused
  have opened := Arena.scope?_push scopes (by simp [unused]) closure.scope
    (some ⟨closure.name, closure.parameters⟩)
  simp only [Memory.enter] at present
  rw [opened.1] at present
  cases present

end TabScript
