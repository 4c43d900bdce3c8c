import TabScript.Proofs.Hoard.Births

/-! No scope is given back too early.

Whatever a run can still come to leads to scopes that stand where they were put when they were opened. -/

set_option autoImplicit false

namespace TabScript

variable {σ : Type}

/-- What a memory and a stack lead to: where the work on the stack is done, what its values hold on to,
all scopes that are there, and whatever one of these holds on to. -/
inductive Memory.Reaches (memory : Memory) (stack : Stack) (there : ScopeId → Prop) : Item → Prop where
  | stands {continuation : Continuation} (inside : continuation ∈ stack) :
    Reaches memory stack there (.scope continuation.scope)
  | value {continuation : Continuation} {value : Value} {item : Item}
    (inside : continuation ∈ stack) (kept : value ∈ continuation.values) (leads : item ∈ value.holds) :
    Reaches memory stack there item
  | open {id : ScopeId} (known : there id) : Reaches memory stack there (.scope id)
  | held {item other : Item} (reached : Reaches memory stack there item)
    (leads : other ∈ item.holds memory.scopes memory.heap) : Reaches memory stack there other

namespace Ledger

/-- What the ledger lets values lead to. -/
def Reaches (ledger : Ledger) : Item → Prop
  | .scope id => ledger.live id
  | .array ref => ledger.arrays ref

variable {ledger : Ledger}

theorem Admits.reaches {arena : Arena} (closed : arena.Closed ledger) {value : Value}
    (admitted : ledger.Admits value) : ∀ item ∈ value.holds, ledger.Reaches item := by
  rcases value with _ | _ | _ | _ | ref | ⟨made | _⟩ <;> intro item leads
  case array =>
    obtain rfl := List.mem_singleton.1 leads
    exact admitted
  case function.closure =>
    obtain rfl := List.mem_singleton.1 leads
    exact closed.live admitted
  all_goals cases leads

end Ledger

theorem Memory.Mirrors.reaches {ledger : Ledger} {slim full : Memory}
    (mirrors : slim.Mirrors ledger full) {stack : Stack} {there : ScopeId → Prop}
    (admitted : ∀ continuation ∈ stack, continuation.Admitted ledger)
    (known : ∀ id, there id → ledger.live id) {item : Item}
    (reached : full.Reaches stack there item) : ledger.Reaches item := by
  induction reached with
  | stands inside =>
    rename_i continuation
    have found := admitted continuation inside
    cases continuation with
    | entering closure arguments => exact mirrors.scopes.live found.1
    | running activity => exact found.1
  | value inside kept leads =>
    rename_i continuation value item
    have found := admitted continuation inside
    cases continuation with
    | entering closure arguments => exact (found.2 value kept).reaches mirrors.scopes item leads
    | running activity => exact Ledger.Admits.reaches mirrors.scopes (Replay.All.values found.2 value kept) item leads
  | «open» present => exact known _ present
  | held reached leads ih =>
    rename_i item other
    cases item with
    | scope id =>
      obtain ⟨scope, present, inside⟩ := mirrors.scopes.scope ih
      simp only [Item.holds, present, List.mem_append, List.mem_map, List.mem_flatMap,
        Option.mem_toList] at leads
      -- a scope holds the one around it, and what its bindings lead to
      rcases leads with ⟨outer, parent, rfl⟩ | ⟨bound, here, leads⟩
      · exact mirrors.scopes.live (inside.parent parent).1
      · exact Ledger.Admits.reaches mirrors.scopes (inside.bindings bound here) other leads
    | array ref =>
      obtain ⟨item, inside, leads⟩ := List.mem_flatMap.1 leads
      exact Ledger.Admits.reaches mirrors.scopes (mirrors.heap.items ih item inside) other leads

namespace Machine

/-- The slot of a scope still holds it: no scope was put there later, and what is found there is the
scope that the hoard has kept from its opening on. -/
structure Holds (machine : Machine σ) (hoard : Hoard σ) (births : Births) (id : ScopeId) : Prop where
  put : births[id.slot]? = some (births.place id)
  last {later : Nat} : id.slot < later → births[later]? ≠ some (births.place id)
  same : ∃ scope, hoard.world.memory.scopes.scope? id = some scope ∧
    machine.memory.scopes.scope? (births.place id) = some (scope.relocate births.place)

/-- All that a machine leads to still stands in its slot, and the way outward from there ends at the
global scope. -/
structure Safe (machine : Machine σ) (hoard : Hoard σ) (births : Births) : Prop where
  stack : machine.stack = Stack.relocate births.place hoard.stack
  heap : machine.memory.heap = hoard.world.memory.heap.relocate births.place
  occupied {slot : ScopeId} : (machine.memory.scopes.scope? slot).isSome →
    ∃ id, machine.Holds hoard births id ∧ births.place id = slot
  reached {id : ScopeId} :
    hoard.world.memory.Reaches hoard.stack (machine.Holds hoard births) (.scope id) →
      machine.Holds hoard births id
  outward {id : ScopeId} : machine.Holds hoard births id →
    ∃ way : List (ScopeId × Scope), machine.memory.scopes.Outward (births.place id) way ∧
      machine.memory.scopes.chain (births.place id) = way.map Prod.snd ∧
      (way.map Prod.fst).getLast? = some Arena.global
  lookup {id : ScopeId} (name : String) : machine.Holds hoard births id →
    machine.memory.scopes.lookup (births.place id) name =
      (hoard.world.memory.scopes.lookup id name).map (Value.relocate births.place)
  snapshot {id : ScopeId} : machine.Holds hoard births id →
    machine.memory.scopes.snapshot machine.memory.heap (births.place id) =
      hoard.world.memory.scopes.snapshot hoard.world.memory.heap id

section
variable {program : List Node} {machine : Machine σ} {hoard : Hoard σ} {births : Births}
  {ledger : Ledger} (beside : machine.Beside program hoard births)
  (place : ledger.place = births.place) (mirrors : machine.Mirrors program ledger hoard)
include beside place mirrors

theorem holds_of_live {id : ScopeId} (live : ledger.live id) : machine.Holds hoard births id := by
  obtain ⟨segments, -, abreast⟩ := mirrors.abreast
  obtain ⟨scope, present, -⟩ := abreast.memory.scopes.scope live
  have inside : id.slot < births.length := by
    rw [beside.length_eq]
    exact Arena.size_of_scope? present
  refine ⟨by simp [Births.place, inside], ?_, scope, present, ?_⟩
  · intro later after known
    have before := (List.getElem?_eq_some_iff.1 known).1
    have count : later < ledger.count := by
      rw [← abreast.memory.scopes.size, ← beside.length_eq]
      exact before
    apply abreast.memory.mirrors.last live after count
    rw [place]
    exact births.fixes_place later _ known
  · have stands := abreast.memory.mirrors.scope_eq live
    rw [place, present] at stands
    exact stands

/-- Two scopes were never put into one slot while both were there, so that the one put there last is
the only one that it can hold. -/
theorem live_of_holds {id : ScopeId} (holds : machine.Holds hoard births id) : ledger.live id := by
  obtain ⟨segments, -, abreast⟩ := mirrors.abreast
  obtain ⟨scope, -, stands⟩ := holds.same
  obtain ⟨other, live, same⟩ := abreast.memory.mirrors.occupied
    (Option.isSome_iff_exists.2 ⟨_, stands⟩)
  rw [place] at same
  have other' := holds_of_live beside place mirrors live
  rcases Nat.lt_trichotomy id.slot other.slot with older | equal | newer
  · exact absurd (same ▸ other'.put) (holds.last older)
  · cases id
    cases other
    cases equal
    exact live
  · exact absurd (same ▸ holds.put) (other'.last newer)

theorem safe_of_mirrors : machine.Safe hoard births := by
  obtain ⟨segments, joined, abreast⟩ := mirrors.abreast
  have closed := abreast.memory.scopes
  have stands := abreast.memory.mirrors
  have live : ∀ id, machine.Holds hoard births id → ledger.live id := fun id holds =>
    live_of_holds beside place mirrors holds
  have heap := abreast.memory.heap_eq
  rw [place] at heap
  -- the ledger has just the scopes that the births hold, so what is known of its scopes is known of them
  refine ⟨place ▸ mirrors.stack, heap, ?_, ?_, ?_, ?_, ?_⟩
  · intro slot present
    obtain ⟨id, known, same⟩ := stands.occupied present
    exact ⟨id, holds_of_live beside place mirrors known, place ▸ same⟩
  · intro id reached
    exact holds_of_live beside place mirrors
      (abreast.memory.reaches (joined ▸ abreast.admitted) live reached)
  · intro id holds
    obtain ⟨way, -, -, outward, enough, last⟩ := stands.outward closed (live id holds)
    rw [place] at outward
    refine ⟨_, outward, outward.chainWithin_eq (by simpa using enough), ?_⟩
    rw [List.map_map]
    rw [List.getLast?_map] at last ⊢
    obtain ⟨step, found, global⟩ := Option.map_eq_some_iff.1 last
    rw [found, Option.map_some, Function.comp_apply, global, ← place, abreast.fixed]
  · intro id name holds
    have found := Arena.lookup_relocate closed stands (live id holds) name
    rw [place] at found
    exact found
  · intro id holds
    have seen := Arena.snapshot_relocate closed stands (live id holds) hoard.world.memory.heap
    rw [place, ← heap] at seen
    exact seen

end

/-- Whenever a run can go on, everything that it can still come to leads to scopes that stand in the
slots where they were put when they were opened: none of these was freed in between, let alone used
again. From each of them the way outward ends at the global scope, and names and pictures are those that
would be seen if no scope were ever given back. -/
theorem Reached.scopes_safe {program : Block} {machine : Machine σ} {calls : List Call}
    (reached : Reached program machine calls) (running : machine.status = .running) :
    (∃ hoard births, Shadowed program machine hoard births) ∧
      ∀ hoard births, Shadowed program machine hoard births → machine.Safe hoard births := by
  refine ⟨reached.shadowed running, fun hoard births shadowed => ?_⟩
  have beside := shadowed.beside running
  obtain ⟨ledger, place, mirrors⟩ := beside.mirrors births.fixes_place
  exact safe_of_mirrors beside place mirrors

def reusing : Block :=
  .of default [.definition default "f" [] (.of default [.pass default]),
    .call default (.identifier default "f") [], .call default (.identifier default "f") []]

/-- In the second call the slot of the first one holds the third scope that was opened. -/
theorem scopes_safe_reusing :
    ∃ (machine : Machine Unit) (calls : List Call) (hoard : Hoard Unit) (births : Births),
      Reached reusing machine calls ∧ machine.status = .running ∧
      Shadowed reusing machine hoard births ∧ births = [⟨0⟩, ⟨1⟩, ⟨1⟩] ∧
      machine.Safe hoard births := by
  have ready : ofProgram reusing ([] : Globals Unit) () = .ok _ := rfl
  have reached := ((((((Reached.start ready).turn none).turn none).turn none).turn none).turn
    none).turn none
  have first := Shadowed.start ready
  have second := first.turn none (by decide +kernel) rfl
  have third := second.turn none (by decide +kernel) rfl
  have fourth := third.turn none (by decide +kernel) rfl
  have fifth := fourth.turn none (by decide +kernel) rfl
  have sixth := fifth.turn none (by decide +kernel) rfl
  have last := sixth.turn none (by decide +kernel) rfl
  have safe := Reached.scopes_safe reached (by decide +kernel)
  exact ⟨_, _, _, _, reached, by decide +kernel, last, by decide +kernel, safe.2 _ _ last⟩

end Machine

end TabScript
