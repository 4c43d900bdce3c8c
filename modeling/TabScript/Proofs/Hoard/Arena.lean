import TabScript.Proofs.Hoard.Ledger

/-! Scopes seen from inside a statement: the way outward, names, snapshots and changes are the same
whether or not other scopes were given back. -/

set_option autoImplicit false

namespace TabScript.Arena

variable {ledger : Ledger} {slim full : Arena}

inductive Outward (arena : Arena) : ScopeId → List (ScopeId × Scope) → Prop where
  | last {id : ScopeId} {scope : Scope} (present : arena.scope? id = some scope)
    (outermost : scope.parent = none) : Outward arena id [(id, scope)]
  | inner {id outer : ScopeId} {scope : Scope} {rest : List (ScopeId × Scope)}
    (present : arena.scope? id = some scope) (parent : scope.parent = some outer)
    (way : Outward arena outer rest) : Outward arena id ((id, scope) :: rest)

theorem Outward.chainWithin_eq {arena : Arena} {id : ScopeId} {way : List (ScopeId × Scope)}
    (outward : Outward arena id way) {room : Nat} (enough : way.length ≤ room) :
    arena.chainWithin room id = way.map Prod.snd := by
  induction outward generalizing room with
  | last present outermost =>
    cases room with
    | zero => simp at enough
    | succ room => simp [chainWithin, present, outermost]
  | inner present parent _ ih =>
    cases room with
    | zero => simp at enough
    | succ room =>
      simp only [List.length_cons, Nat.add_le_add_iff_right] at enough
      simp [chainWithin, present, parent, ih enough]

/-- From a live scope the way leads over live scopes, each older than the one before, to the global
scope. -/
theorem Closed.outward (closed : full.Closed ledger) {id : ScopeId} (live : ledger.live id) :
    ∃ way, Outward full id way ∧ (∀ step ∈ way, ledger.live step.1 ∧ step.1.slot ≤ id.slot) ∧
      (way.map Prod.fst).Nodup ∧ (way.map Prod.fst).getLast? = some Arena.global := by
  -- the scope around a live one is older, so the way outward comes to an end
  induction slot : id.slot using Nat.strongRecOn generalizing id with
  | ind slot ih =>
    obtain ⟨scope, present, inside⟩ := closed.scope live
    cases parent : scope.parent with
    | none =>
      have outermost := inside.outermost parent
      refine ⟨[(id, scope)], .last present parent, ?_, by simp, by simp [outermost]⟩
      intro step here
      obtain rfl := List.mem_singleton.1 here
      exact ⟨live, Nat.le_of_eq slot⟩
    | some outer =>
      obtain ⟨kept, older⟩ := inside.parent parent
      obtain ⟨way, outward, known, distinct, last⟩ :=
        ih outer.slot (by omega) (closed.live kept) rfl
      refine ⟨(id, scope) :: way, .inner present parent outward, ?_, ?_, ?_⟩
      · intro step here
        rcases List.mem_cons.1 here with rfl | here
        · exact ⟨live, Nat.le_of_eq slot⟩
        · have earlier := known step here
          exact ⟨earlier.1, by omega⟩
      · refine List.nodup_cons.2 ⟨fun again => ?_, distinct⟩
        obtain ⟨step, here, same⟩ := List.mem_map.1 again
        have earlier := (known step here).2
        rw [show step.1 = id from same] at earlier
        omega
      · rw [List.map_cons, List.getLast?_cons, last]
        rfl

theorem Outward.relocate (mirrors : slim.Mirrors ledger full) {id : ScopeId}
    {way : List (ScopeId × Scope)} (outward : Outward full id way)
    (live : ∀ step ∈ way, ledger.live step.1) :
    Outward slim (ledger.place id)
      (way.map fun step => (ledger.place step.1, step.2.relocate ledger.place)) := by
  induction outward with
  | @last id scope present outermost =>
    have known := live (id, scope) List.mem_cons_self
    refine .last ?_ (by simp [Scope.relocate, outermost])
    rw [mirrors.scope_eq known, present]
    rfl
  | @inner id outer scope rest present parent _ ih =>
    have known := live (id, scope) List.mem_cons_self
    refine .inner ?_ (by simp [Scope.relocate, parent])
      (ih fun step here => live step (List.mem_cons_of_mem _ here))
    rw [mirrors.scope_eq known, present]
    rfl

theorem size_of_scope? {arena : Arena} {id : ScopeId} {scope : Scope}
    (present : arena.scope? id = some scope) : id.slot < arena.slots.size := by
  simp only [scope?, Option.join_eq_some_iff] at present
  exact (Array.getElem?_eq_some_iff.1 present).1

theorem Outward.present {arena : Arena} {id : ScopeId} {way : List (ScopeId × Scope)}
    (outward : Outward arena id way) : ∀ step ∈ way, arena.scope? step.1 = some step.2 := by
  induction outward with
  | last present _ =>
    intro step here
    obtain rfl := List.mem_singleton.1 here
    exact present
  | inner present _ _ ih =>
    intro step here
    rcases List.mem_cons.1 here with rfl | here
    · exact present
    · exact ih step here

theorem Outward.length_le {arena : Arena} {id : ScopeId} {way : List (ScopeId × Scope)}
    (outward : Outward arena id way) (distinct : (way.map Prod.fst).Nodup) :
    way.length ≤ arena.slots.size := by
  have slots : (way.map fun step => step.1.slot).Nodup := by
    refine List.pairwise_map.2 ((List.pairwise_map.1 distinct).imp fun differ same => differ ?_)
    exact congrArg ScopeId.mk same
  have inside : (way.map fun step => step.1.slot) ⊆ List.range arena.slots.size := by
    intro slot here
    obtain ⟨step, there, rfl⟩ := List.mem_map.1 here
    exact List.mem_range.2 (size_of_scope? (outward.present step there))
  simpa using slots.length_le_of_subset inside

/-- The same way leads outward on both sides, and it is short enough for a chain. -/
theorem Mirrors.outward (mirrors : slim.Mirrors ledger full) (closed : full.Closed ledger)
    {id : ScopeId} (live : ledger.live id) :
    ∃ way, Outward full id way ∧ way.length ≤ full.slots.size ∧
      Outward slim (ledger.place id)
        (way.map fun step => (ledger.place step.1, step.2.relocate ledger.place)) ∧
      way.length ≤ slim.slots.size ∧ (way.map Prod.fst).getLast? = some Arena.global := by
  obtain ⟨way, outward, known, distinct, last⟩ := closed.outward live
  have there := outward.relocate mirrors fun step here => (known step here).1
  have distinct' : ((way.map fun step =>
      (ledger.place step.1, step.2.relocate ledger.place)).map Prod.fst).Nodup := by
    rw [List.map_map]
    refine List.pairwise_map.2 ((List.pairwise_map.1 distinct).imp_of_mem ?_)
    intro first second here there differ same
    exact differ (mirrors.apart (known first here).1 (known second there).1 same)
  have short := there.length_le distinct'
  rw [List.length_map] at short
  exact ⟨way, outward, outward.length_le distinct, there, short, last⟩

theorem chain_relocate (closed : full.Closed ledger) (mirrors : slim.Mirrors ledger full)
    {id : ScopeId} (live : ledger.live id) :
    slim.chain (ledger.place id) = (full.chain id).map (Scope.relocate ledger.place) := by
  obtain ⟨way, outward, enough, there, enough', -⟩ := mirrors.outward closed live
  simp only [chain]
  rw [there.chainWithin_eq (by simpa using enough'), outward.chainWithin_eq enough]
  simp [List.map_map, Function.comp_def]

@[simp] theorem get?_relocate (place : ScopeId → ScopeId) (bindings : Bindings) (name : String) :
    (Bindings.relocate place bindings).get? name =
      (bindings.get? name).map (Value.relocate place) := by
  induction bindings with
  | nil => rfl
  | cons first rest ih =>
    simp only [Bindings.relocate, List.map_cons, Bindings.get?] at ih ⊢
    split
    · rfl
    · exact ih

theorem set_relocate (place : ScopeId → ScopeId) (bindings : Bindings) (name : String)
    (value : Value) :
    (Bindings.relocate place bindings).set name (value.relocate place) =
      Bindings.relocate place (bindings.set name value) := by
  induction bindings with
  | nil => rfl
  | cons first rest ih =>
    simp only [Bindings.relocate, List.map_cons, Bindings.set] at ih ⊢
    split
    · rfl
    · rw [ih]
      rfl

theorem lookup_relocate (closed : full.Closed ledger) (mirrors : slim.Mirrors ledger full)
    {id : ScopeId} (live : ledger.live id) (name : String) :
    slim.lookup (ledger.place id) name = (full.lookup id name).map (Value.relocate ledger.place) := by
  simp only [lookup, chain_relocate closed mirrors live]
  induction full.chain id with
  | nil => rfl
  | cons scope rest ih =>
    simp only [List.map_cons, List.findSome?_cons, Scope.relocate, get?_relocate]
    cases scope.bindings.get? name with
    | none => exact ih
    | some value => rfl

theorem snapshot_relocate (closed : full.Closed ledger) (mirrors : slim.Mirrors ledger full)
    {id : ScopeId} (live : ledger.live id) (heap : Heap) :
    slim.snapshot (heap.relocate ledger.place) (ledger.place id) = full.snapshot heap id := by
  have names : ∀ bindings : Bindings,
      Snapshot.namesOf (heap.relocate ledger.place) (Bindings.relocate ledger.place bindings) =
        Snapshot.namesOf heap bindings := by
    intro bindings
    simp [Snapshot.namesOf, Bindings.relocate, List.filter_map, Function.comp_def]
  have levels : ∀ (scopes : List Scope) (inner : Option Snapshot),
      (scopes.map (Scope.relocate ledger.place)).foldl
          (Snapshot.around (heap.relocate ledger.place)) inner =
        scopes.foldl (Snapshot.around heap) inner := by
    intro scopes
    induction scopes with
    | nil => exact fun _ => rfl
    | cons scope rest ih =>
      intro inner
      simp only [List.map_cons, List.foldl_cons, Snapshot.around, Scope.relocate, names]
      exact ih _
  simp only [snapshot, chain_relocate closed mirrors live, levels]

theorem Closed.admits_lookup (closed : full.Closed ledger) {id : ScopeId} (live : ledger.live id)
    {name : String} {value : Value} (found : full.lookup id name = some value) :
    ledger.Admits value := by
  obtain ⟨way, outward, known, distinct, -⟩ := closed.outward live
  rw [lookup, chain, outward.chainWithin_eq (outward.length_le distinct)] at found
  obtain ⟨scope, here, bound⟩ := List.exists_of_findSome?_eq_some found
  obtain ⟨step, there, rfl⟩ := List.mem_map.1 here
  obtain ⟨scope', present, inside⟩ := closed.scope (known step there).1
  rw [outward.present step there] at present
  cases present
  have held : ∀ bindings : Bindings, bindings.get? name = some value →
      ∃ bound ∈ bindings, bound.2 = value := by
    intro bindings
    induction bindings with
    | nil => intro impossible; cases impossible
    | cons first rest ih =>
      intro got
      rw [Bindings.get?] at got
      split at got
      · cases got
        exact ⟨first, List.mem_cons_self, rfl⟩
      · obtain ⟨bound, there, same⟩ := ih got
        exact ⟨bound, List.mem_cons_of_mem _ there, same⟩
  obtain ⟨entry, there, rfl⟩ := held _ bound
  exact inside.bindings entry there

theorem scope?_modify (arena : Arena) (id other : ScopeId) (change : Scope → Scope) :
    (arena.modify id change).scope? other =
      if other = id then (arena.scope? id).map change else arena.scope? other := by
  simp only [scope?, modify, Array.getElem?_modify]
  by_cases same : other = id
  · subst same
    cases arena.slots[other.slot]? <;> simp
  · have apart : id.slot ≠ other.slot := fun equal => same (congrArg ScopeId.mk equal).symm
    simp [same, apart]

theorem Mirrors.modify (mirrors : slim.Mirrors ledger full) {id : ScopeId} (live : ledger.live id)
    {change changed : Scope → Scope} (agree : ∀ scope,
      change (Scope.relocate ledger.place scope) = Scope.relocate ledger.place (changed scope)) :
    (slim.modify (ledger.place id) change).Mirrors ledger (full.modify id changed) where
  scope_eq := by
    intro other known
    simp only [scope?_modify]
    by_cases same : other = id
    · subst same
      rw [if_pos rfl, if_pos rfl, mirrors.scope_eq known, Option.map_map, Option.map_map]
      congr 1
      funext scope
      exact agree scope
    · rw [if_neg same, if_neg fun equal => same (mirrors.apart known live equal)]
      exact mirrors.scope_eq known
  apart := mirrors.apart
  last := mirrors.last
  occupied := by
    intro place present
    rw [scope?_modify] at present
    split at present
    · exact ⟨id, live, by simp_all⟩
    · exact mirrors.occupied present
  vacant := by
    intro slot unused
    have empty := mirrors.vacant unused
    simp [Arena.modify, Array.getElem?_modify, empty]
  nodup := mirrors.nodup

theorem Closed.modify (closed : full.Closed ledger) {id : ScopeId} {change : Scope → Scope}
    (safe : ∀ scope, scope.Closed ledger id → (change scope).Closed ledger id) :
    (full.modify id change).Closed ledger where
  unused := closed.unused
  size := by simpa [Arena.modify] using closed.size
  global := closed.global
  live := closed.live
  scope := by
    intro other known
    obtain ⟨scope, present, inside⟩ := closed.scope known
    rw [scope?_modify]
    by_cases same : other = id
    · subst same
      exact ⟨change scope, by simp [present], safe scope inside⟩
    · exact ⟨scope, by rw [if_neg same, present], inside⟩

theorem mem_set {bindings : Bindings} {name : String} {value : Value} {bound : String × Value}
    (inside : bound ∈ bindings.set name value) : bound ∈ bindings ∨ bound = (name, value) := by
  induction bindings with
  | nil => exact .inr (List.mem_singleton.1 inside)
  | cons first rest ih =>
    rw [Bindings.set] at inside
    split at inside
    · rcases List.mem_cons.1 inside with same | inside
      · exact .inr same
      · exact .inl (List.mem_cons_of_mem _ inside)
    · rcases List.mem_cons.1 inside with same | inside
      · exact .inl (same ▸ List.mem_cons_self)
      · rcases ih inside with old | new
        · exact .inl (List.mem_cons_of_mem _ old)
        · exact .inr new

theorem Closed.assign (closed : full.Closed ledger) {id : ScopeId} {name : String} {value : Value}
    (admitted : ledger.Admits value) : (full.assign id name value).Closed ledger := by
  refine closed.modify fun scope inside => ⟨inside.parent, inside.outermost, ?_, inside.captured⟩
  intro bound here
  rcases mem_set here with old | new
  · exact inside.bindings bound old
  · rw [new]
    exact admitted

theorem Mirrors.assign (mirrors : slim.Mirrors ledger full) {id : ScopeId} (live : ledger.live id)
    (name : String) (value : Value) :
    (slim.assign (ledger.place id) name (value.relocate ledger.place)).Mirrors ledger
      (full.assign id name value) :=
  mirrors.modify live fun scope => by simp [Scope.relocate, set_relocate]

theorem Mirrors.capture (mirrors : slim.Mirrors ledger full) {id : ScopeId} (live : ledger.live id) :
    (slim.capture (ledger.place id)).Mirrors ledger (full.capture id) :=
  mirrors.modify live fun _ => rfl

end TabScript.Arena
