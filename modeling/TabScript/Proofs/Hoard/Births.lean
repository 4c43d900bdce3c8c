import TabScript.Proofs.Hoard.Lockstep

/-! Where scopes are put when they are opened.

The hoard numbers the scopes in the order of their opening. The machine puts the same scopes into slots,
and the list of these slots tells where the scope with each number was put. -/

set_option autoImplicit false

namespace TabScript

variable {σ : Type}

namespace Stack

def entries : Stack → Nat
  | [] => 0
  | .entering closure _ :: rest => (if closure.body.isEmpty then entries rest else 0) + 1
  | .running activity :: rest =>
    match activity.current?, activity.sequel with
    | some _, _ => 0
    | none, .recheck _ => 0
    | none, _ => entries rest

theorem entries_relocate (place : ScopeId → ScopeId) (stack : Stack) :
    entries (relocate place stack) = entries stack := by
  induction stack with
  | nil => rfl
  | cons top rest ih =>
    rw [relocate, List.map_cons] at *
    cases top with
    | entering closure arguments =>
      simp only [Continuation.relocate, entries, ih]
      rfl
    | running activity =>
      simp only [Continuation.relocate, entries, Activity.current?_relocate,
        Activity.sequel_relocate, ih]

theorem entries_deliver (value : Value) (stack : Stack) :
    entries (deliver value stack) = entries stack := by
  rcases stack with _ | ⟨_ | _, rest⟩ <;> rfl

end Stack

namespace Memory

theorem length_opened_settleWith (release : Memory → ScopeId → Stack → Memory) (memory : Memory)
    (stack : Stack) : (memory.settleWith release stack).opened.length = stack.entries := by
  induction memory, stack using settleWith.induct release with
  | case1 memory =>
    rw [settleWith_nil]
    rfl
  | case2 memory closure arguments rest scope larger entered ih =>
    rw [settleWith_entering, entered]
    simp only [Settled.opened, Settled.after, List.filterMap_cons, Passage.opened?,
      List.length_cons] at ih ⊢
    rw [ih]
    cases body : closure.body <;>
      simp [Stack.entries, Activity.current?, Activity.body, body]
  | case3 memory activity rest node current =>
    rw [settleWith_statement current]
    simp [Stack.entries, current, Settled.opened]
  | case4 memory activity rest sequel spent ih =>
    rw [settleWith_nothing spent sequel, ih]
    simp [Stack.entries, spent, sequel]
  | case5 memory activity rest loop sequel spent =>
    rw [settleWith_recheck spent sequel]
    simp [Stack.entries, spent, sequel, Settled.opened]
  | case6 memory activity rest sequel spent delivered ih =>
    rw [settleWith_return spent sequel]
    simp only [Settled.opened, Settled.after, List.filterMap_cons, Passage.opened?] at ih ⊢
    rw [ih, Stack.entries_deliver]
    simp [Stack.entries, spent, sequel]

theorem enter_of_unused {memory : Memory} (unused : memory.scopes.free = []) (closure : Closure)
    (arguments : List Value) :
    (memory.enter closure arguments).1 = ⟨memory.scopes.slots.size⟩ ∧
      (memory.enter closure arguments).2.scopes.free = [] ∧
      (memory.enter closure arguments).2.scopes.slots.size = memory.scopes.slots.size + 1 := by
  obtain ⟨heap, scopes⟩ := memory
  have unused' : scopes.free = [] := unused
  have bound : ∀ (bindings : List (String × Value)) (id : ScopeId) (arena : Arena),
      (bindings.foldl (fun arena binding => arena.assign id binding.1 binding.2) arena).free =
          arena.free ∧
        (bindings.foldl (fun arena binding => arena.assign id binding.1 binding.2)
          arena).slots.size = arena.slots.size := by
    intro bindings id
    induction bindings with
    | nil => exact fun arena => ⟨rfl, rfl⟩
    | cons first rest ih =>
      intro arena
      have later := ih (arena.assign id first.1 first.2)
      exact ⟨later.1, later.2.trans (by simp [Arena.assign, Arena.modify])⟩
  have filled := bound (closure.parameters.zip arguments)
    (scopes.push closure.scope (some ⟨closure.name, closure.parameters⟩)).1
    (scopes.push closure.scope (some ⟨closure.name, closure.parameters⟩)).2
  refine ⟨?_, filled.1.trans ?_, filled.2.trans ?_⟩ <;> simp [enter, Arena.push, unused']

theorem opened_keep {memory : Memory} (unused : memory.scopes.free = []) (stack : Stack) :
    (memory.settleWith keep stack).opened =
        (List.range' memory.scopes.slots.size stack.entries).map ScopeId.mk ∧
      (memory.settleWith keep stack).memory.scopes.slots.size =
        memory.scopes.slots.size + stack.entries := by
  have count := memory.length_opened_settleWith keep stack
  rw [← count]
  induction memory, stack using settleWith.induct keep with
  | case1 memory => simp [settleWith_nil, Settled.opened]
  | case2 memory closure arguments rest scope larger entered ih =>
    obtain ⟨number, unused', size⟩ := enter_of_unused unused closure arguments
    rw [entered] at number unused' size
    obtain ⟨opened, grown⟩ := ih unused' (length_opened_settleWith _ _ _)
    rw [settleWith_entering, entered]
    simp only [Settled.opened, Settled.after, List.filterMap_cons, Passage.opened?,
      List.length_cons, List.range'_succ, List.map_cons] at opened grown ⊢
    rw [size] at opened grown
    exact ⟨List.cons_eq_cons.2 ⟨number, opened⟩, by omega⟩
  | case3 memory activity rest node current =>
    simp [settleWith_statement current, Settled.opened]
  | case4 memory activity rest sequel spent ih =>
    rw [settleWith_nothing spent sequel]
    exact ih unused (length_opened_settleWith _ _ _)
  | case5 memory activity rest loop sequel spent =>
    simp [settleWith_recheck spent sequel, Settled.opened]
  | case6 memory activity rest sequel spent delivered ih =>
    rw [settleWith_return spent sequel]
    exact ih unused (length_opened_settleWith _ _ _)

end Memory

/-- The slots that scopes were put into, in the order of their opening. -/
abbrev Births := List ScopeId

/-- The places are where the scopes were put; those of scopes still to come are free. -/
def Births.Fixes (births : Births) (place : ScopeId → ScopeId) : Prop :=
  ∀ (number : Nat) (slot : ScopeId), births[number]? = some slot → place ⟨number⟩ = slot

def Births.place (births : Births) (id : ScopeId) : ScopeId := births.getD id.slot Arena.global

theorem Births.fixes_place (births : Births) : births.Fixes births.place := by
  intro number slot known
  simp [Births.place, List.getD_eq_getElem?_getD, known]

theorem Births.Fixes.of_append {births later : Births} {place : ScopeId → ScopeId}
    (fixes : (births ++ later).Fixes place) : births.Fixes place := by
  intro number slot known
  apply fixes number slot
  rw [List.getElem?_append_left (List.getElem?_eq_some_iff.1 known).1]
  exact known

def Ledger.starting (place : ScopeId → ScopeId) : Ledger where
  place := place
  live id := id = Arena.global
  kept id := id = Arena.global
  arrays _ := True
  count := 1
  events := []
  calls := []

namespace Machine

/-- The state of a run, with the hoard of the same run and the slots of its scopes. -/
inductive Shadowed (program : Block) : Machine σ → Hoard σ → Births → Prop where
  | start {globals : Globals σ} {host : σ} {machine : Machine σ}
    (ready : ofProgram program globals host = .ok machine) :
    Shadowed program machine
      ⟨⟨machine.memory, machine.host, [], []⟩, machine.stack, machine.executed⟩ [Arena.global]
  | turn {machine : Machine σ} {hoard : Hoard σ} {births : Births} (limit : Option Nat)
    (running : machine.status = .running) (within : machine.exceeds limit = false)
    (before : Shadowed program machine hoard births) :
    Shadowed program (machine.turn limit).machine
      (hoard.step machine.wants machine.hosts).hoard (births ++ machine.settled.opened)
  | on {machine : Machine σ} {hoard : Hoard σ} {births : Births} (kind : EventKind)
    (before : Shadowed program machine hoard births) :
    Shadowed program (machine.on kind) hoard births
  | load {machine : Machine σ} {hoard : Hoard σ} {births : Births} (kinds : List EventKind)
    (before : Shadowed program machine hoard births) :
    Shadowed program (machine.load kinds).1 hoard births

theorem Reached.shadowed {program : Block} {machine : Machine σ} {calls : List Call}
    (reached : Reached program machine calls) (running : machine.status = .running) :
    ∃ hoard births, Shadowed program machine hoard births := by
  induction reached with
  | start ready => exact ⟨_, _, .start ready⟩
  | @turn machine calls limit before ih =>
    cases beyond : machine.exceeds limit with
    | true =>
      simp only [Machine.turn, beyond, if_true] at running
      cases running
    | false =>
      have before' : machine.status = .running := by
        simp only [Machine.turn, beyond, Bool.false_eq_true, if_false] at running
        exact status_of_step running
      obtain ⟨hoard, births, shadowed⟩ := ih before'
      exact ⟨_, _, .turn limit before' beyond shadowed⟩
  | on kind before ih =>
    obtain ⟨hoard, births, shadowed⟩ := ih running
    exact ⟨_, _, .on kind shadowed⟩
  | load kinds before ih =>
    obtain ⟨hoard, births, shadowed⟩ := ih running
    exact ⟨_, _, .load kinds shadowed⟩

section
variable {place : ScopeId → ScopeId} (fixed : place Arena.global = Arena.global)

include fixed

theorem mirrors_initial : Memory.initial.Mirrors (.starting place) Memory.initial where
  heap_eq := by simp [Memory.initial, Heap.empty, Heap.relocate]
  heap := ⟨fun _ item inside => by simp [Memory.initial, Heap.items, Heap.empty] at inside,
    fun _ => trivial⟩
  scopes := by
    refine ⟨rfl, rfl, rfl, id, ?_⟩
    rintro id rfl
    refine ⟨⟨none, [], none, true⟩, rfl, ?_, fun _ => rfl, ?_, fun _ => rfl⟩
    · intro outer impossible
      cases impossible
    · intro bound inside
      cases inside
  mirrors := by
    refine ⟨?_, fun here there _ => Eq.trans here there.symm, ?_, ?_, ?_, List.nodup_nil⟩
    · intro id live
      rw [show id = Arena.global from live, show (Ledger.starting place).place = place from rfl, fixed]
      rfl
    · intro id number _ later before
      simp only [Ledger.starting] at before
      omega
    · rintro ⟨slot⟩ present
      refine ⟨Arena.global, rfl, fixed.trans ?_⟩
      cases slot with
      | zero => rfl
      | succ slot => simp [Memory.initial, Arena.initial, Arena.scope?] at present
    · intro slot inside
      cases inside

theorem mirrors_assign {memory : Memory} (mirrors : memory.Mirrors (.starting place) memory)
    (name : String) {value : Value} (admitted : (Ledger.starting place).Admits value)
    (same : value.relocate place = value) :
    (memory.assign Arena.global name value).Mirrors (.starting place)
      (memory.assign Arena.global name value) := by
  have live : (Ledger.starting place).live Arena.global := rfl
  have assigned := mirrors.mirrors.assign live name value
  change (memory.scopes.assign (place Arena.global) name (value.relocate place)).Mirrors _ _
    at assigned
  rw [fixed, same] at assigned
  exact ⟨mirrors.heap_eq, mirrors.heap, mirrors.scopes.assign admitted, assigned⟩

theorem mirrors_install {memory : Memory} (mirrors : memory.Mirrors (.starting place) memory)
    (name : String) (native : Native) :
    (memory.install name native).Mirrors (.starting place) (memory.install name native) := by
  have identified : memory.identify.2.Mirrors (.starting place) memory.identify.2 :=
    ⟨congrArg (fun heap => heap.identify.2) mirrors.heap_eq,
      ⟨mirrors.heap.items, mirrors.heap.fresh⟩, mirrors.scopes, mirrors.mirrors⟩
  exact mirrors_assign fixed identified name trivial rfl

/-- A value that the host provides may be made of new arrays, which lead to no scope either. -/
theorem mirrors_provide {memory : Memory} (mirrors : memory.Mirrors (.starting place) memory) {json : Json}
    {value : Value} {heap : Heap} (name : String)
    (made : Value.ofJson memory.heap json = some (value, heap)) :
    (Memory.assign { memory with heap := heap } Arena.global name value).Mirrors (.starting place)
      (Memory.assign { memory with heap := heap } Arena.global name value) := by
  obtain ⟨closed, admitted, -⟩ := (Heap.closed_makes (.starting place)).ofJson mirrors.heap made
  have heaps : memory.heap = memory.heap.relocate place := mirrors.heap_eq
  have moved := Value.ofJson_relocate place memory.heap json
  rw [← heaps, made, Option.map_some, Option.some.injEq, Prod.mk.injEq] at moved
  have larger : Memory.Mirrors (.starting place) { memory with heap := heap } { memory with heap := heap } :=
    ⟨moved.2, closed, mirrors.scopes, mirrors.mirrors⟩
  exact mirrors_assign fixed larger name admitted moved.1.symm

end

theorem mirrors_ofProgram {program : Block} {globals : Globals σ} {host : σ} {machine : Machine σ}
    (ready : ofProgram program globals host = .ok machine) {place : ScopeId → ScopeId}
    (fixed : place Arena.global = Arena.global) :
    machine.Mirrors program.statements (.starting place)
      ⟨⟨machine.memory, machine.host, [], []⟩, machine.stack, machine.executed⟩ := by
  obtain ⟨begins, shape⟩ := begins_of_ofProgram ready
  have memory : machine.memory.Mirrors (.starting place) machine.memory :=
    ofProgram_keeps (fun memory => memory.Mirrors (.starting place) memory)
      (fun memory name native mirrors => mirrors_install fixed mirrors name native)
      (fun memory json value heap name mirrors made => mirrors_provide fixed mirrors name made)
      (mirrors_initial fixed) ready
  refine ⟨?_, ⟨_, begins, memory, fixed, ?_, shape, ?_, ?_⟩, rfl, rfl⟩
  · have moved : (Activity.block program.statements Arena.global).relocate place =
        .block program.statements Arena.global := by rw [Activity.block_relocate, fixed]
    show machine.stack = Stack.relocate place machine.stack
    rw [begins]
    simp [Stack.join, Segment.continuations, Continuation.relocate, moved]
  · intro continuation inside
    obtain rfl := List.mem_singleton.1 inside
    exact ⟨rfl, Replay.all_fresh⟩
  · exact List.nodup_nil
  · exact List.not_mem_nil

structure Beside (program : List Node) (machine : Machine σ) (hoard : Hoard σ) (births : Births) :
    Prop where
  first : births[0]? = some Arena.global
  length_eq : births.length = hoard.world.memory.scopes.slots.size
  unused : hoard.world.memory.scopes.free = []
  mirrors {place : ScopeId → ScopeId} : births.Fixes place →
    ∃ ledger : Ledger, ledger.place = place ∧ machine.Mirrors program ledger hoard

theorem beside_ofProgram {program : Block} {globals : Globals σ} {host : σ} {machine : Machine σ}
    (ready : ofProgram program globals host = .ok machine) :
    Beside program.statements machine
      ⟨⟨machine.memory, machine.host, [], []⟩, machine.stack, machine.executed⟩ [Arena.global] := by
  have same := mirrors_ofProgram ready (rfl : id Arena.global = Arena.global)
  obtain ⟨segments, -, abreast⟩ := same.abreast
  refine ⟨rfl, abreast.memory.scopes.size.symm, abreast.memory.scopes.unused, fun fixes => ?_⟩
  exact ⟨_, rfl, mirrors_ofProgram ready (fixes 0 Arena.global rfl)⟩

theorem Beside.placed {program : List Node} {machine : Machine σ} {hoard : Hoard σ}
    {births : Births} (beside : machine.Beside program hoard births) {ledger : Ledger}
    (mirrors : machine.Mirrors program ledger hoard)
    (fixes : (births ++ machine.settled.opened).Fixes ledger.place) :
    machine.settled.opened = hoard.settled.opened.map ledger.place := by
  have count : machine.settled.opened.length = hoard.stack.entries := by
    unfold settled
    rw [Memory.length_opened_settleWith, mirrors.stack, Stack.entries_relocate]
  have numbered : hoard.settled.opened =
      (List.range' hoard.world.memory.scopes.slots.size hoard.stack.entries).map ScopeId.mk :=
    (Memory.opened_keep beside.unused hoard.stack).1
  rw [numbered, List.map_map, ← beside.length_eq]
  refine List.ext_getElem (by simp [count]) fun position here there => ?_
  have known : (births ++ machine.settled.opened)[births.length + position]? =
      some machine.settled.opened[position] := by
    simp [here]
  have stands := fixes _ _ known
  simp [stands]

theorem Beside.lockstep {program : List Node} {machine : Machine σ} {hoard : Hoard σ}
    {births : Births} (beside : machine.Beside program hoard births)
    (running : machine.status = .running) {place : ScopeId → ScopeId}
    (fixes : (births ++ machine.settled.opened).Fixes place) :
    Hoard.Matches program place hoard.front machine.hooks (hoard.step machine.wants machine.hosts)
      machine.step := by
  obtain ⟨ledger, rfl, mirrors⟩ := beside.mirrors fixes.of_append
  exact mirrors.lockstep running (beside.placed mirrors fixes)

theorem Beside.step {program : List Node} {machine : Machine σ} {hoard : Hoard σ} {births : Births}
    (beside : machine.Beside program hoard births) (running : machine.step.machine.status = .running) :
    machine.step.machine.Beside program (hoard.step machine.wants machine.hosts).hoard
      (births ++ machine.settled.opened) := by
  have matched : ∀ place, (births ++ machine.settled.opened).Fixes place →
      Hoard.Matches program place hoard.front machine.hooks
        (hoard.step machine.wants machine.hosts) machine.step := fun place =>
    beside.lockstep (status_of_step running)
  obtain ⟨-, grown⟩ := Memory.opened_keep beside.unused hoard.stack
  have count : (births ++ machine.settled.opened).length =
      hoard.front.memory.scopes.slots.size := by
    obtain ⟨ledger, place, mirrors⟩ := beside.mirrors births.fixes_place
    have entered := Memory.length_opened_settleWith Memory.release machine.memory machine.stack
    rw [mirrors.stack, Stack.entries_relocate] at entered
    rw [List.length_append, beside.length_eq, settled, mirrors.stack, entered]
    exact grown.symm
  have first : (births ++ machine.settled.opened)[0]? = some Arena.global := by
    rw [List.getElem?_append_left (List.getElem?_eq_some_iff.1 beside.first).1]
    exact beside.first
  generalize births ++ machine.settled.opened = later at matched count first ⊢
  generalize hoard.step machine.wants machine.hosts = outcome at matched ⊢
  generalize machine.step = reaction at matched running ⊢
  -- the machine still runs, so it neither stopped nor failed, wherever the scopes are placed
  have goesOn : ∀ place, later.Fixes place → ∃ ledger : Ledger, ledger.place = place ∧
      reaction.machine.Mirrors program ledger outcome.hoard ∧
      outcome.hoard.world.memory.scopes.slots.size = hoard.front.memory.scopes.slots.size := by
    intro place fixes
    cases matched place fixes with
    | goesOn stands _ mirrors grows => exact ⟨_, stands, mirrors, grows.size⟩
    | stops _ exited => exact absurd (exited.symm.trans running) (by simp)
    | fails halted => exact absurd (halted.symm.trans running) (by simp)
  obtain ⟨ledger, -, mirrors, size⟩ := goesOn _ later.fixes_place
  obtain ⟨segments, -, abreast⟩ := mirrors.abreast
  refine ⟨first, count.trans size.symm, abreast.memory.scopes.unused, fun fixes => ?_⟩
  obtain ⟨ledger, place, mirrors, -⟩ := goesOn _ fixes
  exact ⟨ledger, place, mirrors⟩

/-- Whenever a run can go on, the machine and the hoard belong together. -/
theorem Shadowed.beside {program : Block} {machine : Machine σ} {hoard : Hoard σ} {births : Births}
    (shadowed : Shadowed program machine hoard births) (running : machine.status = .running) :
    machine.Beside program.statements hoard births := by
  induction shadowed with
  | start ready => exact beside_ofProgram ready
  | turn limit before within shadowed ih =>
    simp only [Machine.turn, within, Bool.false_eq_true, if_false] at running ⊢
    exact (ih before).step running
  | on kind shadowed ih =>
    obtain ⟨first, length_eq, unused, mirrors⟩ := ih running
    refine ⟨first, length_eq, unused, fun fixes => ?_⟩
    obtain ⟨ledger, place, stack, abreast, host, executed⟩ := mirrors fixes
    exact ⟨ledger, place, stack, abreast, host, executed⟩
  | load kinds shadowed ih =>
    obtain ⟨first, length_eq, unused, mirrors⟩ := ih running
    refine ⟨first, length_eq, unused, fun fixes => ?_⟩
    obtain ⟨ledger, place, stack, abreast, host, executed⟩ := mirrors fixes
    exact ⟨ledger, place, stack, abreast, host, executed⟩

end Machine

end TabScript
