import TabScript.Proofs.Assigned.Announced
import TabScript.Proofs.Assigned.Layered
import TabScript.Proofs.Limits.Untimed
import TabScript.Proofs.Names.Shown

/-! Events of assignments agree with the pictures they carry.

The picture that comes with an event is made on another way than the value: it shows every scope from the
global one inward and leaves some functions out, and after an update the value is the one that the variable has
then. Both are the same, since nothing that ran before the update could bind the variable anew. -/

set_option autoImplicit false

namespace TabScript

variable {σ : Type} {heap : Heap}

def Snapshot.innermost : Snapshot → List (String × Json)
  | level names _ none => names
  | level _ _ (some inner) => inner.innermost

theorem Snapshot.innermost_foldl_around (scopes : List Scope) (inner : Snapshot) :
    ((scopes.foldl (around heap) (some inner)).getD .empty).innermost = inner.innermost := by
  induction scopes generalizing inner with
  | nil => rfl
  | cons first rest ih => exact ih _

namespace Arena

variable {arena : Arena} {id : ScopeId} {name : String} {value : Value}

theorem chain_of_present {scope : Scope} (present : arena.scope? id = some scope) :
    ∃ outer, arena.chain id = scope :: outer := by
  have room := size_of_scope? present
  unfold chain
  cases size : arena.slots.size with
  | zero => omega
  | succ budget =>
    rw [chainWithin, present]
    dsimp only
    split
    · exact ⟨[], rfl⟩
    · exact ⟨_, rfl⟩

theorem Binds.lookup (binds : arena.Binds id name value) : arena.lookup id name = some value := by
  obtain ⟨scope, present, bound⟩ := binds
  obtain ⟨outer, chain⟩ := chain_of_present present
  rw [Arena.lookup, chain, List.findSome?_cons, bound]

theorem Binds.innermost (binds : arena.Binds id name value) (distinct : arena.Distinct)
    (shown : value.isBuiltin = false) :
    (arena.snapshot heap id).innermost.lookup name = some (value.toJson heap) := by
  obtain ⟨scope, present, bound⟩ := binds
  obtain ⟨outer, chain⟩ := chain_of_present present
  have pictured : (arena.snapshot heap id).innermost = Snapshot.namesOf heap scope.bindings := by
    rw [snapshot, chain]
    exact Snapshot.innermost_foldl_around outer _
  rw [pictured, Snapshot.lookup_namesOf (distinct id scope present), bound, Option.filter_some]
  simp only [shown, Bool.not_false, if_true, Option.map_some]

theorem get?_snapshot_of_lookup (distinct : arena.Distinct) (found : arena.lookup id name = some value)
    (shown : value.isBuiltin = false) :
    (arena.snapshot heap id).get? name = some (value.toJson heap) := by
  rw [lookup_eq_head?] at found
  obtain ⟨outer, bound⟩ := List.head?_eq_some_iff.1 found
  rw [get?_snapshot distinct, bound]
  simp only [List.find?_cons, shown, Bool.not_false, Option.map_some]

end Arena

namespace Machine

variable {machine : Machine σ} {hook : Nat} {json : Json} {shown : Snapshot}

theorem next_of_told {limit : Option Nat} {name : Option String}
    (told : .delivered hook (.assign name json shown) ∈ (machine.turn limit).observed) :
    machine.turn limit = machine.step ∧ machine.status = .running ∧
      ∃ activity node rest, machine.settled.next = some (activity, node, rest) ∧
        .assign name json shown ∈ (machine.attempt machine.settled.memory activity node).2.events := by
  -- neither a limit nor the exit nor a failure tells of an assignment
  unfold turn at told ⊢
  split at told
  · cases told
  · rename_i within
    rw [if_neg within]
    by_cases running : machine.status = .running
    · refine ⟨rfl, running, ?_⟩
      cases next : machine.settled.next with
      | none =>
        rw [step_eq running, next] at told
        cases Observation.event_of_deliver told
      | some upcoming =>
        obtain ⟨activity, node, rest⟩ := upcoming
        refine ⟨activity, node, rest, rfl, ?_⟩
        rw [step_of_next running next] at told
        dsimp only at told
        split at told
        · rcases List.mem_append.1 told with called | delivered
          · obtain ⟨call, -, same⟩ := List.mem_map.1 called
            cases same
          · obtain ⟨event, inside, delivered⟩ := List.mem_flatMap.1 delivered
            rw [Observation.event_of_deliver delivered]
            exact List.mem_reverse.1 inside
        · obtain ⟨call, -, same⟩ := List.mem_map.1 told
          cases same
    · simp only [step, running, if_false] at told
      cases told

section
variable {program : Block} {calls : List Call} (reached : Reached program machine calls)
include reached

/-- When the next statement has changed an array, the variable that it started at is an array, even if the
statement waited for calls on the way. -/
theorem Reached.changes_array (running : machine.status = .running) {activity : Activity} {node : Node}
    {rest : Stack} (next : machine.settled.next = some (activity, node, rest)) {flow : Flow}
    {after : Progress σ}
    (attempted : machine.attempt machine.settled.memory activity node = (.ok flow, after))
    {name : String} (changes : node.changes? = some name) :
    after.memory.scopes.NamesArray activity.scope name := by
  obtain ⟨log, resumed, promises, same⟩ :=
    reached.next_promises running (reached.layered running) next
  rw [same] at attempted
  exact promises.kept machine.wants resumed attempted changes

/-- However a program runs, an event that tells of an assignment to a name comes from the next statement and
carries the picture of its scope as the step leaves it. Its value is what the name means there, and unless that
is a function that no program defined, the picture has it under the name. Either the statement bound the name,
and then the innermost scope of the picture has it; or it changed what it reached from the variable by
subscripts, and then the value is the array of the variable. -/
theorem Reached.assign_event_agrees (limit : Option Nat) {name : String}
    (told : .delivered hook (.assign (some name) json shown) ∈ (machine.turn limit).observed) :
    ∃ activity node rest value, machine.settled.next = some (activity, node, rest) ∧
      let left := (machine.turn limit).machine.memory
      shown = left.scopes.snapshot left.heap activity.scope ∧ json = value.toJson left.heap ∧
      left.scopes.lookup activity.scope name = some value ∧
      (value.isBuiltin = false → shown.get? name = some json) ∧
      (node.binds? = some name ∧ left.scopes.Binds activity.scope name value ∧
          (value.isBuiltin = false → shown.innermost.lookup name = some json) ∨
        node.changes? = some name ∧ ∃ ref, value = .array ref) := by
  obtain ⟨same, running, activity, node, rest, next, inside⟩ := next_of_told told
  rcases attempted : machine.attempt machine.settled.memory activity node with ⟨flow, after⟩
  have clear : Progress.Clear machine.settled.memory.scopes
      (⟨machine.settled.memory, activity.replay.rewind, machine.host, [], []⟩ : Progress σ) :=
    ⟨rfl, fun _ impossible => by cases impossible⟩
  have news : (machine.attempt machine.settled.memory activity node).1 = .ok .next ∧ _ :=
    Evaluation.tells_exec ⟨activity.scope, machine.wants, machine.hosts⟩ node _ clear _ _ _ inside
  change _ ∧ node.News activity.scope machine.settled.memory.scopes (some name) json shown
    (machine.attempt machine.settled.memory activity node).2.memory at news
  rw [attempted] at news
  obtain ⟨rfl, pictured, value, made, origin⟩ := news
  have memory : (machine.turn limit).machine.memory = after.memory := by
    rw [same, step_of_next running next, attempted]
    rfl
  have distinct := (reached.turn limit).distinct
  rw [memory] at distinct ⊢
  have shows : after.memory.scopes.lookup activity.scope name = some value →
      value.isBuiltin = false → shown.get? name = some json := fun found visible => by
    rw [pictured, made]
    exact Arena.get?_snapshot_of_lookup distinct found visible
  refine ⟨activity, node, rest, value, next, pictured, made, ?_⟩
  -- a statement that binds writes its own scope, so the innermost scope shows it; one that changes an
  -- array leaves the name bound to the array, wherever that binding is
  rcases origin with ⟨bound, named, binds, here⟩ | ⟨changes, found⟩
  · cases named
    have stands : (machine.settled.memory.scopes.scope? activity.scope).isSome := by
      have carries := reached.carries_settled running
      rw [Settled.stack, next] at carries
      exact carries.stands List.mem_cons_self
    have own := here stands
    refine ⟨own.lookup, shows own.lookup, .inl ⟨binds, own, fun visible => ?_⟩⟩
    rw [pictured, made]
    exact own.innermost distinct visible
  · obtain ⟨ref, looked⟩ := reached.changes_array running next attempted changes.symm
    have array : value = .array ref := by
      rw [found, Option.bind_some, looked, Option.getD_some]
    subst array
    exact ⟨looked, shows looked, .inr ⟨changes.symm, ref, rfl⟩⟩

end

def mutating : Block :=
  .of default [
    .definition default "f" [] (.of default [
      .assignment default
        (.element default (.identifier default "x") (.literal default (some (.number 0))))
        (.array default []),
      .result default (some (.literal default (some (.number 0))))]),
    .assignment default (.identifier default "x") (.array default [.array default []]),
    .assignment default
      (.element default (.identifier default "x") (.call default (.identifier default "f") []))
      (.literal default none)]

def assigned? : Observation → Option (Nat × Option String)
  | .delivered hook (.assign name _ _) => some (hook, name)
  | _ => none

/-- After five steps the function has returned, and the statement that waited for it changes the array. The
hook is told of the variable, with the value that the picture has for it. -/
theorem assign_event_agrees_mutating :
    ∃ (machine : Machine Unit) (calls : List Call) (json : Json) (shown : Snapshot),
      Reached mutating machine calls ∧
      (machine.settled.next.map fun next => next.1.replay.resumed) = some true ∧
      .delivered 0 (.assign (some "x") json shown) ∈ (machine.turn none).observed ∧
      shown.get? "x" = some json := by
  have found : ∃ (machine : Machine Unit) (calls : List Call), Reached mutating machine calls ∧
      (machine.settled.next.map fun next => next.1.replay.resumed) = some true ∧
      (machine.settled.next.map fun next => next.2.1.binds?) = some none ∧
      (machine.turn none).observed.filterMap assigned? = [(0, some "x")] := by
    have ready : ofProgram mutating ([] : Globals Unit) () = .ok _ := rfl
    have reached := (((((Reached.start ready).on .assign).turn none).turn none).turn none).turn none
    exact ⟨_, _, reached.turn none, by decide +kernel, by decide +kernel, by decide +kernel⟩
  obtain ⟨machine, calls, reached, resumed, unbound, heard⟩ := found
  have heard' : (0, some "x") ∈ (machine.turn none).observed.filterMap assigned? := by
    rw [heard]
    exact List.mem_cons_self
  obtain ⟨seen, inside, same⟩ := List.mem_filterMap.1 heard'
  obtain ⟨json, shown, rfl⟩ : ∃ json shown, seen = .delivered 0 (.assign (some "x") json shown) := by
    unfold assigned? at same
    split at same
    · cases same
      exact ⟨_, _, rfl⟩
    · cases same
  refine ⟨machine, calls, json, shown, reached, resumed, inside, ?_⟩
  obtain ⟨activity, node, rest, value, next, -, -, -, shows, ⟨binds, -⟩ | ⟨-, ref, array⟩⟩ :=
    Reached.assign_event_agrees reached none inside
  · rw [next] at unbound
    simp [binds] at unbound
  · exact shows (by rw [array]; rfl)

end Machine

end TabScript
