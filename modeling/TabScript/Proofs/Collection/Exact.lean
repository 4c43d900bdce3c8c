import TabScript.Proofs.Hoard.Reclaim

/-! What a collection keeps.

A scope is needed if it is the global one, if it is given or a given value leads to it, or if a needed scope
stands inside it or binds something that leads to it. Marks are spread over scopes and arrays alike, each of
them followed once, and in the end the marked scopes are the needed ones. -/

set_option autoImplicit false

namespace TabScript

/-- A function that was defined in this scope is the value, or is in it, however deep inside of arrays. -/
inductive Value.Leads (heap : Heap) (id : ScopeId) : Value → Prop where
  | closure {made : Closure} (home : made.scope = id) : Leads heap id (.function (.closure made))
  | item {ref : ArrayRef} {value : Value} (inside : value ∈ heap.items ref)
    (leads : Leads heap id value) : Leads heap id (.array ref)

/-- The least set of scopes with the global one, those that are given and those that given values lead to,
closed under the scope around a scope that is there and under what its bindings lead to. -/
inductive Arena.Needed (arena : Arena) (heap : Heap) (roots : List ScopeId) (values : List Value) :
    ScopeId → Prop where
  | global : Needed arena heap roots values Arena.global
  | root {id : ScopeId} (given : id ∈ roots) : Needed arena heap roots values id
  | value {id : ScopeId} {value : Value} (given : value ∈ values) (leads : value.Leads heap id) :
    Needed arena heap roots values id
  | parent {inner outer : ScopeId} {scope : Scope} (needed : Needed arena heap roots values inner)
    (present : arena.scope? inner = some scope) (around : scope.parent = some outer) :
    Needed arena heap roots values outer
  | binding {holder id : ScopeId} {scope : Scope} {bound : String × Value}
    (needed : Needed arena heap roots values holder) (present : arena.scope? holder = some scope)
    (inside : bound ∈ scope.bindings) (leads : bound.2.Leads heap id) :
    Needed arena heap roots values id

/-- Marking runs to its end, and follows so many items on the way. An item that has its mark, or whose place
does not exist, is passed over. -/
inductive Marks.Follows (arena : Arena) (heap : Heap) : Marks → List Item → Nat → Marks → Prop where
  | done {marks : Marks} : Follows arena heap marks [] 0 marks
  | follow {marks last : Marks} {item : Item} {rest : List Item} {count : Nat}
    (unmarked : marks.get? item = some false)
    (onward : Follows arena heap (marks.set item) (item.holds arena heap ++ rest) count last) :
    Follows arena heap marks (item :: rest) (count + 1) last
  | pass {marks last : Marks} {item : Item} {rest : List Item} {count : Nat}
    (marked : marks.get? item ≠ some false) (onward : Follows arena heap marks rest count last) :
    Follows arena heap marks (item :: rest) count last

def Arena.origins (roots : List ScopeId) (values : List Value) : List Item :=
  roots.map Item.scope ++ [.scope Arena.global] ++ values.flatMap Value.holds

namespace Marks

variable {arena : Arena} {heap : Heap} {marks last : Marks} {pending : List Item} {count : Nat}

theorem follows_spread (arena : Arena) (heap : Heap) (marks : Marks) (pending : List Item) :
    ∃ count ≤ marks.unmarked, Follows arena heap marks pending count (marks.spread arena heap pending) := by
  induction marks, pending using spread.induct arena heap with
  | case1 marks =>
    rw [spread]
    exact ⟨0, Nat.zero_le _, .done⟩
  | case2 marks item rest unmarked ih =>
    obtain ⟨count, bounded, follows⟩ := ih
    have fewer := unmarked_set_lt unmarked
    rw [spread]
    split
    case h_2 other => exact absurd unmarked other
    exact ⟨count + 1, by omega, .follow unmarked follows⟩
  | case3 marks item rest marked ih =>
    obtain ⟨count, bounded, follows⟩ := ih
    rw [spread]
    split
    case h_1 unmarked => exact absurd unmarked marked
    exact ⟨count, bounded, .pass marked follows⟩

theorem unmarked_empty (arena : Arena) (heap : Heap) :
    (empty arena heap).unmarked = arena.slots.size + heap.arrays.size := by
  simp [unmarked, empty]

/-- Only what is followed is marked, so what holds of the start and of everything held by what it holds of
holds of all marked items. -/
theorem Follows.marked {holds : Item → Prop} (follows : Follows arena heap marks pending count last)
    (held : ∀ item, holds item → ∀ other ∈ item.holds arena heap, holds other)
    (before : ∀ item, marks.get? item = some true → holds item) (given : ∀ item ∈ pending, holds item) :
    ∀ item, last.get? item = some true → holds item := by
  induction follows with
  | done => exact before
  | @follow marks last item rest count unmarked onward ih =>
    have here := given item List.mem_cons_self
    refine ih (fun other marked => ?_) fun other inside => ?_
    · by_cases same : other = item
      · exact same ▸ here
      · rw [get?_set_of_ne marks same] at marked
        exact before other marked
    · rcases List.mem_append.1 inside with new | waiting
      · exact held item here other new
      · exact given other (List.mem_cons_of_mem _ waiting)
  | pass marked onward ih => exact ih before fun other inside => given other (List.mem_cons_of_mem _ inside)

end Marks

/-! A marked scope is needed, and a needed one is covered. -/

section
variable {arena : Arena} {heap : Heap} {roots : List ScopeId} {values : List Value}

def Item.Needed (arena : Arena) (heap : Heap) (roots : List ScopeId) (values : List Value) : Item → Prop
  | .scope id => arena.Needed heap roots values id
  | .array ref => ∀ id, (Value.array ref).Leads heap id → arena.Needed heap roots values id

theorem Value.holds_needed {value : Value}
    (needed : ∀ id, value.Leads heap id → arena.Needed heap roots values id) :
    ∀ item ∈ value.holds, item.Needed arena heap roots values := by
  intro item inside
  rcases value with _ | _ | _ | _ | ref | ⟨made | _⟩
  case array =>
    obtain rfl := List.mem_singleton.1 inside
    exact needed
  case function.closure =>
    obtain rfl := List.mem_singleton.1 inside
    exact needed _ (.closure rfl)
  all_goals cases inside

theorem Item.holds_needed {item : Item} (needed : item.Needed arena heap roots values) :
    ∀ other ∈ item.holds arena heap, other.Needed arena heap roots values := by
  intro other inside
  cases item with
  | scope id =>
    cases present : arena.scope? id with
    | none => simp [Item.holds, present] at inside
    | some scope =>
      simp only [Item.holds, present, List.mem_append, List.mem_map, Option.mem_toList,
        List.mem_flatMap] at inside
      rcases inside with ⟨outer, around, rfl⟩ | ⟨bound, here, inside⟩
      · exact .parent needed present around
      · exact Value.holds_needed (fun _ leads => .binding needed present here leads) other inside
  | array ref =>
    obtain ⟨value, here, inside⟩ := List.mem_flatMap.1 inside
    exact Value.holds_needed (fun id leads => needed id (.item here leads)) other inside

theorem Item.origins_needed :
    ∀ item ∈ Arena.origins roots values, item.Needed arena heap roots values := by
  intro item inside
  simp only [Arena.origins, List.mem_append, List.mem_map, List.mem_singleton,
    List.mem_flatMap] at inside
  rcases inside with (⟨id, given, rfl⟩ | rfl) | ⟨value, given, inside⟩
  · exact .root given
  · exact .global
  · exact Value.holds_needed (fun _ leads => .value given leads) item inside

variable {marks : Marks} (complete : marks.Complete ⟨heap, arena⟩)
include complete

theorem Marks.Complete.marked_scope {id : ScopeId} (covered : marks.Covers (.scope id))
    (present : (arena.scope? id).isSome) : marks.get? (.scope id) = some true := by
  obtain ⟨scope, there⟩ := Option.isSome_iff_exists.1 present
  have inside : id.slot < marks.scopes.size := by
    rw [complete.scopes]
    exact Arena.size_of_scope? there
  simpa [Marks.Covers, Marks.get?, inside] using covered

theorem Marks.Complete.marked_array {ref : ArrayRef} (covered : marks.Covers (.array ref))
    (present : heap.Has ref) : marks.get? (.array ref) = some true := by
  have inside : ref.index < marks.arrays.size := by
    rw [complete.arrays]
    exact present
  simpa [Marks.Covers, Marks.get?, inside] using covered

theorem Marks.Complete.covers_leads {id : ScopeId} {value : Value} (leads : value.Leads heap id)
    (covered : ∀ item ∈ value.holds, marks.Covers item) : marks.Covers (.scope id) := by
  induction leads with
  | closure home =>
    subst home
    exact covered _ List.mem_cons_self
  | @item ref value inside leads ih =>
    have marked := complete.marked_array (covered (.array ref) List.mem_cons_self) (Heap.has_of_mem inside)
    exact ih fun item held => complete.followed marked item (List.mem_flatMap.2 ⟨value, inside, held⟩)

theorem Marks.Complete.covers_needed (given : ∀ item ∈ Arena.origins roots values, marks.Covers item)
    {id : ScopeId} (needed : arena.Needed heap roots values id) : marks.Covers (.scope id) := by
  induction needed with
  | global => exact given _ (by simp [Arena.origins])
  | @root id inside => exact given _ (by simp [Arena.origins, inside])
  | @value id value inside leads =>
    refine complete.covers_leads leads fun item held => given item ?_
    exact List.mem_append_right _ (List.mem_flatMap.2 ⟨value, inside, held⟩)
  | @parent inner outer scope needed present around ih =>
    have marked := complete.marked_scope ih (Option.isSome_iff_exists.2 ⟨scope, present⟩)
    exact complete.followed marked _ (by simp [Item.holds, present, around])
  | @binding holder id scope bound needed present inside leads ih =>
    have marked := complete.marked_scope ih (Option.isSome_iff_exists.2 ⟨scope, present⟩)
    refine complete.covers_leads leads fun item held => complete.followed marked item ?_
    simp only [Item.holds, present]
    exact List.mem_append_right _ (List.mem_flatMap.2 ⟨bound, inside, held⟩)

end

namespace Arena

variable (arena : Arena) (heap : Heap) (roots : List ScopeId) (values : List Value)

def reached : Marks := (Marks.empty arena heap).spread arena heap (origins roots values)

theorem marked_iff {id : ScopeId} (present : (arena.scope? id).isSome) :
    (arena.reached heap roots values).get? (.scope id) = some true ↔
      arena.Needed heap roots values id := by
  constructor
  · intro marked
    obtain ⟨count, -, follows⟩ := Marks.follows_spread arena heap (.empty arena heap) (origins roots values)
    exact follows.marked (fun _ => Item.holds_needed)
      (fun item marked => absurd marked (Marks.get?_empty arena heap item)) Item.origins_needed _ marked
  · intro needed
    obtain ⟨complete, given⟩ := Marks.complete_spread ⟨heap, arena⟩ (origins roots values)
    exact complete.marked_scope (complete.covers_needed given needed) present

theorem size_sweep (slots : Array (Option Scope)) (freed : List Nat) :
    (freed.foldl (fun slots slot => slots.setIfInBounds slot none) slots).size = slots.size := by
  induction freed generalizing slots with
  | nil => rfl
  | cons first rest ih => rw [List.foldl_cons, ih, Array.size_setIfInBounds]

theorem scope?_collect (id : ScopeId) :
    (arena.Needed heap roots values id ∧
        (arena.collect heap roots values).2.scope? id = arena.scope? id) ∨
      (¬arena.Needed heap roots values id ∧ (arena.collect heap roots values).2.scope? id = none) := by
  have swept : (arena.collect heap roots values).2.scope? id =
      if id.slot ∈ arena.garbage (arena.reached heap roots values) ∧ id.slot < arena.slots.size then none
      else arena.scope? id := by
    simp only [collect, scope?, getElem?_sweep, reached, origins]
    exact apply_ite Option.join _ _ _
  rw [swept]
  cases present : arena.scope? id with
  | none =>
    rw [ite_self]
    by_cases needed : arena.Needed heap roots values id
    · exact .inl ⟨needed, rfl⟩
    · exact .inr ⟨needed, rfl⟩
  | some scope =>
    have there : (arena.scope? id).isSome := by rw [present]; rfl
    have marked := arena.marked_iff heap roots values there
    have garbage : id.slot ∈ arena.garbage (arena.reached heap roots values) ↔
        ¬arena.Needed heap roots values id := by
      rw [mem_garbage, ← not_congr marked]
      exact and_iff_right there
    by_cases needed : arena.Needed heap roots values id
    · rw [if_neg fun freed => garbage.1 freed.1 needed]
      exact .inl ⟨needed, rfl⟩
    · rw [if_pos ⟨garbage.2 needed, size_of_scope? present⟩]
      exact .inr ⟨needed, rfl⟩

theorem garbage_eq :
    arena.garbage (arena.reached heap roots values) =
      (List.range arena.slots.size).filter fun slot =>
        (arena.scope? ⟨slot⟩).isSome && ((arena.collect heap roots values).2.scope? ⟨slot⟩).isNone := by
  refine List.filter_congr fun slot _ => ?_
  cases present : (arena.scope? ⟨slot⟩).isSome with
  | false => rfl
  | true =>
    have marked := arena.marked_iff heap roots values present
    rw [Bool.true_and, Bool.true_and]
    rcases arena.scope?_collect heap roots values ⟨slot⟩ with ⟨needed, kept⟩ | ⟨needless, gone⟩
    · rw [kept, marked.2 needed, bne_self_eq_false, Option.isNone_eq_false_iff.2 present]
    · rw [gone, Option.isNone_none, bne_iff_ne]
      exact fun holds => needless (marked.1 holds)

/-- A collection follows every scope and every array at most once, so that it comes to an end, and in
whatever order names are bound, roots are given and items stand in arrays, it frees the scopes that are not
needed and no others. It tells how many these are, leaves everything else about the others as it was, and
begins to count anew. -/
theorem collect_exact :
    (∃ count ≤ arena.slots.size + heap.arrays.size,
      Marks.Follows arena heap (.empty arena heap) (origins roots values) count
        (arena.reached heap roots values)) ∧
    (∀ id, ((arena.collect heap roots values).2.scope? id).isSome ↔
      (arena.scope? id).isSome ∧ arena.Needed heap roots values id) ∧
    (∀ id scope, (arena.collect heap roots values).2.scope? id = some scope →
      arena.scope? id = some scope) ∧
    (arena.collect heap roots values).1 =
      ((List.range arena.slots.size).filter fun slot =>
        (arena.scope? ⟨slot⟩).isSome &&
          ((arena.collect heap roots values).2.scope? ⟨slot⟩).isNone).length ∧
    (arena.collect heap roots values).2.slots.size = arena.slots.size ∧
    (arena.collect heap roots values).2.retained = 0 := by
  refine ⟨?_, fun id => ?_, fun id scope present => ?_, ?_, ?_, rfl⟩
  · rw [← Marks.unmarked_empty]
    exact Marks.follows_spread arena heap (.empty arena heap) (origins roots values)
  · rcases arena.scope?_collect heap roots values id with ⟨needed, kept⟩ | ⟨needless, gone⟩
    · rw [kept, and_iff_left needed]
    · rw [gone]
      exact ⟨fun impossible => (by cases impossible), fun both => absurd both.2 needless⟩
  · rcases arena.scope?_collect heap roots values id with ⟨-, kept⟩ | ⟨-, gone⟩
    · exact kept ▸ present
    · rw [gone] at present
      cases present
  · rw [← garbage_eq]
    rfl
  · exact size_sweep arena.slots _

end Arena

end TabScript
