import TabScript.Proofs.Assigned.Anchored
import TabScript.Proofs.Hoard.Arena
import TabScript.Proofs.Observers.Undisturbed
import TabScript.Proofs.Replay.Statement

/-! Statements that are left and attempted again.

A statement that waits for a call is attempted again in another world and perhaps for other hooks. What its
course ensures is still ensured if the names mean the same. So this is told of the memory of the
statement, and it is passed on from one attempt to the next. -/

set_option autoImplicit false

namespace TabScript

variable {σ : Type}

namespace Evaluation

/-- Attempts of a statement that begin in this world with this log follow a course: an update comes to its
end only if the variable that it starts at is an array. Hooks do not matter, so there is one for everything
here. -/
def Promises (hosts : Array (HostFunction σ)) (scope : ScopeId) (node : Node) (log : List Slot)
    (world : World σ) : Prop :=
  ∃ course, Ends (exec ⟨scope, fun _ => true, hosts⟩ node) [] (fun _ _ => True) (fun _ => False) course
      (fun resumed =>
        exec ⟨scope, fun _ => true, hosts⟩ node (world.progress (.behind [] log resumed))) ∧
    course.Ensures scope fun _ after =>
      ∀ name, node.changes? = some name → after.memory.scopes.NamesArray scope name

variable {hosts : Array (HostFunction σ)} {scope : ScopeId} {node : Node} {log : List Slot}
  {world : World σ}

/-- Whoever listens, an attempt ends in the same way and leaves the same memory. -/
theorem exec_listening (scope : ScopeId) (hosts : Array (HostFunction σ)) (wants : EventKind → Bool)
    (node : Node) {before after : Progress σ} {flow : Except Interrupt Flow}
    (reached : exec ⟨scope, wants, hosts⟩ node before = (flow, after)) :
    ∃ listened, exec ⟨scope, fun _ => true, hosts⟩ node before = (flow, listened) ∧
      listened.memory = after.memory ∧ listened.replay = after.replay := by
  have shares : Surroundings.Shares (fun _ _ => True) ⟨scope, wants, hosts⟩
      ⟨scope, fun _ => true, hosts⟩ := ⟨rfl, rfl, fun _ _ _ _ _ => trivial⟩
  obtain ⟨same, agrees⟩ := undisturbed_exec shares node before before ⟨rfl, rfl, rfl, trivial, rfl⟩
  rw [reached] at same agrees
  exact ⟨(exec ⟨scope, fun _ => true, hosts⟩ node before).2, Prod.ext same.symm rfl,
    agrees.memory.symm, agrees.replay.symm⟩

theorem promises_fresh (hosts : Array (HostFunction σ)) (scope : ScopeId) (node : Node)
    (world : World σ) : Promises hosts scope node [] world :=
  ⟨_, follows_exec _ node [] world, Plan.ensures_exec ⟨scope, _, hosts⟩ node world⟩

section
variable (promises : Promises hosts scope node log world) (wants : EventKind → Bool) (resumed : Bool)
include promises

theorem Promises.kept {flow : Flow} {after : Progress σ}
    (reached : exec ⟨scope, wants, hosts⟩ node (world.progress (.behind [] log resumed)) =
      (.ok flow, after)) {name : String} (changes : node.changes? = some name) :
    after.memory.scopes.NamesArray scope name := by
  obtain ⟨course, ends, ensures⟩ := promises
  obtain ⟨listened, ended, memory, -⟩ := exec_listening scope hosts wants node reached
  rcases course with ⟨fault | found, later⟩ | ⟨closure, arguments, later, resume⟩
  · obtain ⟨replay, -, failed⟩ := ends resumed
    cases ended.symm.trans failed
  · obtain ⟨log', -, done⟩ := ends
    cases ended.symm.trans (done resumed)
    rw [← memory]
    exact ensures name changes
  · rcases ends with ⟨-, impossible, -⟩ | ⟨log', slot, stop, cursor, -, left, -⟩
    · exact impossible.elim
    · cases ended.symm.trans (left resumed)

/-- An attempt that is left at a call leaves the promise with the result of the call. -/
theorem Promises.left {closure : Closure} {arguments : List Value} {after : Progress σ}
    (reached : exec ⟨scope, wants, hosts⟩ node (world.progress (.behind [] log resumed)) =
      (.error (.suspend closure arguments), after)) :
    ∃ (log' : List Slot) (slot stop cursor : Nat),
      after.replay = ⟨log'.toArray, cursor, some (slot, stop), resumed⟩ ∧ log'[slot]? = some none ∧
      ∀ value later, after.memory.scopes.Agrees scope later.memory.scopes →
        Promises hosts scope node (log'.set slot (some ⟨value, stop⟩)) later := by
  obtain ⟨course, ends, ensures⟩ := promises
  obtain ⟨listened, ended, memory, replay⟩ := exec_listening scope hosts wants node reached
  rcases course with ⟨fault | found, later⟩ | ⟨closure', arguments', later, resume⟩
  · obtain ⟨replay', -, failed⟩ := ends resumed
    cases ended.symm.trans failed
  · obtain ⟨log', -, done⟩ := ends
    cases ended.symm.trans (done resumed)
  · rcases ends with ⟨-, impossible, -⟩ | ⟨log', slot, stop, cursor, empty, left, goesOn⟩
    · exact impossible.elim
    · cases ended.symm.trans (left resumed)
      refine ⟨log', slot, stop, cursor, ?_, empty, fun value later' agrees => ?_⟩
      · rw [← replay]
        simp [World.progress]
      · rw [← memory] at agrees
        exact ⟨_, goesOn value later', ensures value later' agrees⟩

end

end Evaluation

namespace Activity

variable {hosts : Array (HostFunction σ)} {arena later : Arena} {activity : Activity} {node : Node}

def Resumes (hosts : Array (HostFunction σ)) (arena : Arena) (activity : Activity) (node : Node) :
    Prop :=
  ∃ log resumed, activity.replay.rewind = .behind [] log resumed ∧
    ∀ world, arena.Agrees activity.scope world.memory.scopes →
      Evaluation.Promises hosts activity.scope node log world

def Expects (hosts : Array (HostFunction σ)) (arena : Arena) (activity : Activity) (node : Node) :
    Prop :=
  ∃ (log : List Slot) (slot stop cursor : Nat) (resumed : Bool),
    activity.replay = ⟨log.toArray, cursor, some (slot, stop), resumed⟩ ∧ log[slot]? = some none ∧
    ∀ value world, arena.Agrees activity.scope world.memory.scopes →
      Evaluation.Promises hosts activity.scope node (log.set slot (some ⟨value, stop⟩)) world

/-- An attempt was made at the statement that the work is at, and the next one keeps its promise if names
mean what they mean now. -/
def Pledged (hosts : Array (HostFunction σ)) (arena : Arena) (activity : Activity) : Prop :=
  ∃ node, activity.current? = some node ∧
    (activity.Resumes hosts arena node ∨ activity.Expects hosts arena node)

theorem Pledged.agrees (pledged : activity.Pledged hosts arena)
    (agrees : arena.Agrees activity.scope later) : activity.Pledged hosts later := by
  obtain ⟨node, current, ⟨log, resumed, begins, kept⟩ |
    ⟨log, slot, stop, cursor, resumed, replay, empty, kept⟩⟩ := pledged
  · exact ⟨node, current, .inl ⟨log, resumed, begins, fun world more => kept world (agrees.trans more)⟩⟩
  · exact ⟨node, current, .inr ⟨log, slot, stop, cursor, resumed, replay, empty,
      fun value world more => kept value world (agrees.trans more)⟩⟩

theorem Pledged.deliver (pledged : activity.Pledged hosts arena) (value : Value) :
    Pledged hosts arena { activity with replay := activity.replay.deliver value } := by
  obtain ⟨node, current, ⟨log, resumed, begins, kept⟩ |
    ⟨log, slot, stop, cursor, resumed, replay, empty, kept⟩⟩ := pledged
  · have idle : activity.replay.waiting = none := congrArg Replay.waiting begins
    have same : activity.replay.deliver value = activity.replay := by
      unfold Replay.deliver
      rw [idle]
    rw [same]
    exact ⟨node, current, .inl ⟨log, resumed, begins, kept⟩⟩
  · have filled : slot < log.length := (List.getElem?_eq_some_iff.1 empty).1
    refine ⟨node, current, .inl ⟨log.set slot (some ⟨value, stop⟩), true, ?_, kept value⟩⟩
    simp [replay, Replay.deliver, Replay.rewind, Replay.behind, filled]

end Activity

end TabScript
