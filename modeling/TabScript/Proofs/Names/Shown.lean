import TabScript.Proofs.Checks.Lawful
import TabScript.Proofs.Names.Distinct

/-! Names as the host finds them.

The host finds a name in a picture as the program does, from the innermost scope outward. But functions that
no program defined are not in the picture. A variable of an outer scope that such a function hides from the
program is therefore found by the host. -/

set_option autoImplicit false

namespace TabScript

variable {heap : Heap}

theorem lookup_eq_some_iff_mem {α : Type} {entries : List (String × α)}
    (distinct : (entries.map Prod.fst).Nodup) {name : String} {found : α} :
    entries.lookup name = some found ↔ (name, found) ∈ entries := by
  induction entries with
  | nil => simp
  | cons first rest ih =>
    obtain ⟨bound, value⟩ := first
    obtain ⟨new, distinct⟩ := List.nodup_cons.1 distinct
    by_cases same : name = bound
    · subst same
      have absent : (name, found) ∉ rest := fun inside => new (List.mem_map.2 ⟨_, inside, rfl⟩)
      simp [absent, eq_comm]
    · have other : (name == bound) = false := beq_false_of_ne same
      simp [List.lookup_cons, other, same, ih distinct]

theorem Bindings.get?_eq_lookup (bindings : Bindings) (name : String) :
    bindings.get? name = bindings.lookup name := by
  induction bindings with
  | nil => rfl
  | cons first rest ih =>
    obtain ⟨bound, value⟩ := first
    by_cases same : bound = name
    · simp [Bindings.get?, same]
    · have other : (name == bound) = false := beq_false_of_ne (Ne.symm same)
      simp [Bindings.get?, List.lookup_cons, other, same, ih]

namespace Snapshot

theorem names_namesOf (bindings : Bindings) :
    (namesOf heap bindings).Perm
      ((bindings.filter fun bound => !bound.2.isBuiltin).map fun bound =>
        (bound.1, bound.2.toJson heap)) :=
  List.mergeSort_perm _ _

theorem nodup_namesOf {bindings : Bindings} (distinct : bindings.Distinct) :
    ((namesOf heap bindings).map Prod.fst).Nodup := by
  rw [((names_namesOf bindings).map Prod.fst).nodup_iff, List.map_map]
  exact distinct.sublist (List.filter_sublist.map Prod.fst)

/-- A level shows what its scope binds a name to, unless that is a function that no program defined. -/
theorem lookup_namesOf {bindings : Bindings} (distinct : bindings.Distinct) (name : String) :
    (namesOf heap bindings).lookup name =
      ((bindings.get? name).filter fun value => !value.isBuiltin).map (Value.toJson heap) := by
  -- the level is sorted by name, so that both sides are compared by what is in them
  refine Option.ext fun json => ?_
  rw [lookup_eq_some_iff_mem (nodup_namesOf distinct), (names_namesOf bindings).mem_iff,
    Bindings.get?_eq_lookup]
  simp only [List.mem_map, List.mem_filter, Prod.exists, Prod.mk.injEq, Option.map_eq_some_iff,
    Option.filter_eq_some_iff, lookup_eq_some_iff_mem distinct]
  constructor
  · rintro ⟨bound, value, ⟨inside, shown⟩, rfl, rfl⟩
    exact ⟨value, ⟨inside, shown⟩, rfl⟩
  · rintro ⟨value, ⟨inside, shown⟩, rfl⟩
    exact ⟨name, value, ⟨inside, shown⟩, rfl, rfl⟩

theorem get?_around (inner : Option Snapshot) (scope : Scope) (name : String) :
    (around heap inner scope).bind (get? · name) =
      (inner.bind (get? · name)).or ((namesOf heap scope.bindings).lookup name) := by
  cases inner <;> rfl

theorem get?_foldl_around (scopes : List Scope) (inner : Option Snapshot) (name : String) :
    (scopes.foldl (around heap) inner).bind (get? · name) =
      (inner.bind (get? · name)).or
        (scopes.findSome? fun scope => (namesOf heap scope.bindings).lookup name) := by
  induction scopes generalizing inner with
  | nil => simp
  | cons first rest ih =>
    rw [List.foldl_cons, ih, get?_around, Option.or_assoc, List.findSome?_cons]
    cases (namesOf heap first.bindings).lookup name <;> simp

end Snapshot

namespace Arena

variable {arena : Arena}

/-- What the scopes from a place outward bind a name to. -/
def bound (arena : Arena) (id : ScopeId) (name : String) : List Value :=
  (arena.chain id).filterMap fun scope => scope.bindings.get? name

theorem lookup_eq_head? (arena : Arena) (id : ScopeId) (name : String) :
    arena.lookup id name = (arena.bound id name).head? := by
  rw [lookup, bound, List.head?_filterMap]

/-- The host finds the first of them that is no function of its own or built in. -/
theorem get?_snapshot (distinct : arena.Distinct) (id : ScopeId) (name : String) :
    (arena.snapshot heap id).get? name =
      ((arena.bound id name).find? fun value => !value.isBuiltin).map (Value.toJson heap) := by
  have whole : (arena.snapshot heap id).get? name =
      ((arena.chain id).foldl (Snapshot.around heap) none).bind (Snapshot.get? · name) := by
    unfold snapshot
    cases (arena.chain id).foldl (Snapshot.around heap) none <;> rfl
  have known : ∀ scope ∈ arena.chain id, scope.bindings.Distinct := by
    intro scope inside
    obtain ⟨place, present⟩ := mem_chainWithin inside
    exact distinct place scope present
  rw [whole, Snapshot.get?_foldl_around, Option.bind_none, Option.none_or, bound]
  -- outward along the chain; where a level shows nothing, the scope binds nothing or a hidden function
  generalize arena.chain id = scopes at known ⊢
  induction scopes with
  | nil => rfl
  | cons first rest ih =>
    have first' := known first List.mem_cons_self
    have rest' := ih fun scope inside => known scope (List.mem_cons_of_mem _ inside)
    rw [List.findSome?_cons, Snapshot.lookup_namesOf first', rest', List.filterMap_cons]
    cases first.bindings.get? name with
    | none => rfl
    | some value =>
      rw [Option.filter_some]
      cases shown : value.isBuiltin <;> simp [shown, -List.find?_filterMap]

end Arena

namespace Machine

variable {σ : Type} {machine : Machine σ}

def innermost (machine : Machine σ) : ScopeId :=
  (machine.stack.head?.map Continuation.scope).getD Arena.global

section
variable {program : Block} {calls : List Call} (reached : Reached program machine calls) (name : String)
include reached

theorem Reached.get?_eq_find? :
    machine.scope.get? name =
      ((machine.memory.scopes.bound machine.innermost name).find? fun value => !value.isBuiltin).map
        (Value.toJson machine.memory.heap) :=
  Arena.get?_snapshot reached.distinct machine.innermost name

/-- Whenever the host asks for a name, it gets the value that the program would find, except that functions
that no program defined are passed over on the way outward. -/
theorem Reached.get?_scope :
    (∀ value, machine.memory.scopes.lookup machine.innermost name = some value →
      value.isBuiltin = false →
      machine.scope.get? name = some (value.toJson machine.memory.heap)) ∧
    (machine.memory.scopes.lookup machine.innermost name = none → machine.scope.get? name = none) ∧
    (∀ value, machine.memory.scopes.lookup machine.innermost name = some value →
      value.isBuiltin = true →
      machine.scope.get? name =
        ((machine.memory.scopes.bound machine.innermost name).tail.find? fun outer =>
          !outer.isBuiltin).map (Value.toJson machine.memory.heap)) := by
  rw [reached.get?_eq_find?, Arena.lookup_eq_head?]
  cases machine.memory.scopes.bound machine.innermost name with
  | nil => simp
  | cons first outer => cases shown : first.isBuiltin <;> simp [shown]

end

def shadowing : Block :=
  .of default [
    .assignment default (.identifier default "x") (.literal default none),
    .definition default "f" [] (.of default [
      .assignment default (.identifier default "x") (.identifier default "print")]),
    .call default (.identifier default "f") []]

/-- After its first statement the program and the host find the same. -/
theorem get?_scope_shadowing :
    ∃ (machine : Machine Unit) (calls : List Call) (value : Value), Reached shadowing machine calls ∧
      machine.memory.scopes.lookup machine.innermost "x" = some value ∧ value.isBuiltin = false ∧
      machine.scope.get? "x" = some (value.toJson machine.memory.heap) := by
  have found : ∃ (machine : Machine Unit) (calls : List Call), Reached shadowing machine calls ∧
      (machine.memory.scopes.lookup machine.innermost "x").map Value.isBuiltin = some false := by
    have ready : ofProgram shadowing ([] : Globals Unit) () = .ok _ := rfl
    exact ⟨_, _, (Reached.start ready).turn none, by decide +kernel⟩
  obtain ⟨machine, calls, reached, bound⟩ := found
  obtain ⟨value, looked, visible⟩ := Option.map_eq_some_iff.1 bound
  exact ⟨machine, calls, value, reached, looked, visible,
    (Reached.get?_scope reached "x").1 value looked visible⟩

/-- Inside the function the program finds the built-in function, and the host the variable outside. -/
theorem hidden_shown :
    ∃ (program : Block) (machine : Machine Unit) (calls : List Call) (value : Value) (json : Json),
      parse "x = 1\ndef f():\n\tx = print\nf()" = .ok program ∧ Reached program machine calls ∧
      machine.memory.scopes.lookup machine.innermost "x" = some value ∧ value.isBuiltin = true ∧
      machine.scope.get? "x" = some json := by
  have found : ∃ (program : Block) (machine : Machine Unit) (calls : List Call),
      parse "x = 1\ndef f():\n\tx = print\nf()" = .ok program ∧ Reached program machine calls ∧
      (machine.memory.scopes.bound machine.innermost "x").map Value.isBuiltin = [true, false] := by
    have runs : ((parse "x = 1\ndef f():\n\tx = print\nf()").toOption.bind fun program =>
        (ofProgram program ([] : Globals Unit) ()).toOption.map fun fresh =>
          let inside := fresh.step.machine.step.machine.step.machine.step.machine
          (inside.memory.scopes.bound inside.innermost "x").map Value.isBuiltin) =
        some [true, false] := by
      decide +kernel
    obtain ⟨program, parsed, made⟩ := Option.bind_eq_some_iff.1 runs
    obtain ⟨fresh, ready, hides⟩ := Option.map_eq_some_iff.1 made
    have reached :=
      ((((Reached.start (except_of_toOption ready)).turn none).turn none).turn none).turn none
    exact ⟨program, _, _, except_of_toOption parsed, reached, hides⟩
  obtain ⟨program, machine, calls, parsed, reached, hides⟩ := found
  obtain ⟨value, others, bound, hidden, more⟩ := List.map_eq_cons_iff.1 hides
  obtain ⟨outer, rest, rfl, shown, -⟩ := List.map_eq_cons_iff.1 more
  refine ⟨program, machine, calls, value, outer.toJson machine.memory.heap, parsed, reached, ?_, hidden,
    (reached.get?_eq_find? "x").trans ?_⟩
  · rw [Arena.lookup_eq_head?, bound, List.head?_cons]
  · rw [bound]
    simp only [List.find?_cons, hidden, shown, Bool.not_true, Bool.not_false, Option.map_some]

end Machine

end TabScript
