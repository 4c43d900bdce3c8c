import TabScript.Proofs.Limits.Untimed

/-! Runs with a limit, round by round.

A limit is looked at in front of every statement. As long as it lets the run go on, nothing differs from
the run without a limit, and a statement that is counted is counted below the limit. -/

set_option autoImplicit false

namespace TabScript

variable {σ : Type}

/-! Nothing that is done on the way to a statement changes where the stack leads. -/

theorem Stack.upcoming?_deliver (value : Value) (stack : Stack) :
    (deliver value stack).findSome? Continuation.upcoming? = stack.findSome? Continuation.upcoming? := by
  rcases stack with _ | ⟨_ | _, rest⟩ <;> rfl

theorem Memory.settleWith_upcoming (release : Memory → ScopeId → Stack → Memory) (memory : Memory)
    (stack : Stack) :
    (memory.settleWith release stack).next.map (fun next => next.2.1) =
      stack.findSome? Continuation.upcoming? := by
  induction memory, stack using settleWith.induct release with
  | case1 memory =>
    rw [settleWith_nil]
    rfl
  | case2 memory closure arguments rest scope larger entered ih =>
    -- the body that is entered leads where the call did
    have leads : (Continuation.running (.body closure scope)).upcoming? =
        (Continuation.entering closure arguments).upcoming? := by
      simp only [Continuation.upcoming?, Activity.upcoming?, Activity.body, Activity.current?,
        Option.or_none]
    rw [settleWith_entering, entered, List.findSome?_cons, ← leads, ← List.findSome?_cons]
    exact ih
  | case3 memory activity rest node current =>
    have leads : activity.upcoming? = some node := by
      rw [Activity.upcoming?, current, Option.some_or]
    rw [settleWith_statement current, List.findSome?_cons, Continuation.upcoming?, leads]
    rfl
  | case4 memory activity rest sequel spent ih =>
    have leads : activity.upcoming? = none := by
      rw [Activity.upcoming?, spent, sequel, Option.none_or]
    rw [settleWith_nothing spent sequel, List.findSome?_cons, Continuation.upcoming?, leads]
    exact ih
  | case5 memory activity rest loop sequel spent =>
    have leads : activity.upcoming? = some loop := by
      rw [Activity.upcoming?, spent, sequel, Option.none_or]
    rw [settleWith_recheck spent sequel, List.findSome?_cons, Continuation.upcoming?, leads]
    rfl
  | case6 memory activity rest sequel spent delivered ih =>
    have leads : activity.upcoming? = none := by
      rw [Activity.upcoming?, spent, sequel, Option.none_or]
    rw [settleWith_return spent sequel, List.findSome?_cons, Continuation.upcoming?, leads]
    rw [Stack.upcoming?_deliver] at ih
    exact ih

theorem Stack.isIdle_eq (stack : Stack) :
    stack.all Continuation.isIdle = (stack.findSome? Continuation.upcoming?).isNone := by
  rw [Bool.eq_iff_iff, Option.isNone_iff_eq_none, List.findSome?_eq_none_iff, List.all_eq_true]
  simp only [Continuation.isIdle, Option.isNone_iff_eq_none]

def Reaction.problem? {α : Type} (reaction : Reaction σ α) : Option ProblemKind :=
  match reaction.result with
  | .ok _ => none
  | .error fault => some fault.cause.kind

/-- A run was ended because it took too long. -/
def Reaction.TimedOut (ended : Reaction σ Unit) : Prop := ended.problem? = some .executionTimeout

namespace Machine

variable {machine : Machine σ} {limit : Option Nat} {most : Nat}

theorem settled_upcoming :
    machine.settled.next.map (fun next => next.2.1) =
      machine.stack.findSome? Continuation.upcoming? :=
  Memory.settleWith_upcoming Memory.release machine.memory machine.stack

theorem isFinished_of_running (running : machine.status = .running) :
    machine.isFinished = machine.settled.next.isNone := by
  have idle : machine.isFinished = machine.stack.all Continuation.isIdle := by
    simp [isFinished, running]
  rw [idle, Stack.isIdle_eq, ← settled_upcoming, Option.isNone_map]

/-! What the limit does to one turn. -/

/-- A run may not go on when so many statements are counted and another one comes next. -/
theorem exceeds_some : machine.exceeds (some most) = true ↔
    machine.status = .running ∧ most ≤ machine.executed ∧ machine.settled.next.isSome := by
  by_cases running : machine.status = .running
  · simp [exceeds, isFinished_of_running running, running]
  · simp [exceeds, isFinished, running]

theorem turn_none : machine.turn none = machine.step := rfl

theorem turn_of_within (within : machine.exceeds limit = false) :
    machine.turn limit = machine.step := by
  simp only [turn, within, Bool.false_eq_true, if_false]

theorem turn_of_exceeds (beyond : machine.exceeds limit = true) :
    machine.turn limit =
      ⟨.error ⟨.timeout, machine.upcomingSpan⟩, { machine with status := .halted }, []⟩ := by
  simp only [turn, beyond, if_true]

theorem within_of_continues {info : StepInfo} (goes : (machine.turn limit).result = .ok (some info)) :
    machine.exceeds limit = false := by
  cases within : machine.exceeds limit with
  | false => rfl
  | true =>
    rw [turn_of_exceeds within] at goes
    cases goes

theorem exceeds_of_timeout {fault : Fault} (fails : (machine.turn limit).result = .error fault)
    (timeout : fault.cause = .timeout) : machine.exceeds limit = true := by
  cases within : machine.exceeds limit with
  | true => rfl
  | false =>
    rw [turn_of_within within] at fails
    exact absurd timeout (timely_step fails)

/-! What a turn counts. -/

/-- What the next statement adds to the count: a statement that goes on after a call was counted
before. -/
def due (machine : Machine σ) : Nat :=
  match machine.settled.next with
  | some (activity, _, _) => if activity.replay.resumed then 0 else 1
  | none => 0

theorem due_le_one : machine.due ≤ 1 := by
  unfold due
  split
  · split <;> omega
  · omega

theorem executed_step (running : machine.status = .running) :
    machine.step.machine.executed = machine.executed + machine.due := by
  unfold due
  cases next : machine.settled.next with
  | none =>
    rw [step_eq running, next]
    rfl
  | some upcoming =>
    obtain ⟨activity, node, rest⟩ := upcoming
    rw [step_of_next running next]
    dsimp only
    split <;> rfl

theorem executed_step_ge : machine.executed ≤ machine.step.machine.executed := by
  by_cases running : machine.status = .running
  · rw [executed_step running]
    omega
  · simp only [step, running, if_false]
    omega

/-- The count never passes the limit: a statement is only run below it. -/
theorem executed_turn_le (counted : machine.executed ≤ most) :
    (machine.turn (some most)).machine.executed ≤ most := by
  cases within : machine.exceeds (some most) with
  | true =>
    rw [turn_of_exceeds within]
    exact counted
  | false =>
    rw [turn_of_within within]
    by_cases running : machine.status = .running
    · rw [executed_step running]
      cases next : machine.settled.next with
      | none =>
        rw [due, next]
        exact counted
      | some upcoming =>
        -- at the limit the statement would have been held back
        have below : ¬most ≤ machine.executed := by
          intro reached
          have beyond := exceeds_some.2 ⟨running, reached, by rw [next]; rfl⟩
          rw [within] at beyond
          cases beyond
        have single := machine.due_le_one
        omega
    · simp only [step, running, if_false]
      exact counted

/-! Rounds of a run. -/

/-- Rounds in each of which a statement is run: the statements, and all that is observed, in order. -/
inductive Rounds (round : Machine σ → Reaction σ (Option StepInfo)) :
    Machine σ → List StepInfo → List Observation → Machine σ → Prop where
  | here {machine : Machine σ} : Rounds round machine [] [] machine
  | next {machine after : Machine σ} {info : StepInfo} {infos : List StepInfo}
      {observed : List Observation} (goes : (round machine).result = .ok (some info))
      (further : Rounds round (round machine).machine infos observed after) :
      Rounds round machine (info :: infos) ((round machine).observed ++ observed) after

section
variable {after : Machine σ} {infos : List StepInfo} {observed : List Observation}

theorem Rounds.unlimited (rounds : Rounds (turn · limit) machine infos observed after) :
    Rounds (turn · none) machine infos observed after := by
  induction rounds with
  | here => exact .here
  | next goes _ ih =>
    have same := turn_of_within (within_of_continues goes)
    rw [same] at goes ih ⊢
    exact .next goes ih

theorem Rounds.executed_le (rounds : Rounds (turn · (some most)) machine infos observed after)
    (counted : machine.executed ≤ most) : after.executed ≤ most := by
  induction rounds with
  | here => exact counted
  | next _ _ ih => exact ih (executed_turn_le counted)

theorem Rounds.amid (rounds : Rounds (turn · limit) machine infos observed after) :
    Observation.Amid observed := by
  induction rounds with
  | here => exact fun _ _ impossible => by cases impossible
  | next goes _ ih =>
    have same := turn_of_within (within_of_continues goes)
    rw [same] at goes ⊢
    exact (amid_step goes).append ih

end

/-! Runs to their end. -/

variable {steps : Nat} {ended : Reaction σ Unit}

theorem rounds_of_complete (completed : machine.complete limit steps = some ended) :
    ∃ infos observed last, Rounds (turn · limit) machine infos observed last ∧
      ended = ⟨(last.turn limit).result.map fun _ => (), (last.turn limit).machine,
        observed ++ (last.turn limit).observed⟩ := by
  induction steps generalizing machine ended with
  | zero => cases completed
  | succ steps ih =>
    rw [complete] at completed
    split at completed
    · rename_i fault result
      cases completed
      exact ⟨[], [], machine, .here, by rw [result]; rfl⟩
    · rename_i result
      cases completed
      exact ⟨[], [], machine, .here, by rw [result]; rfl⟩
    · rename_i info result
      obtain ⟨later, finished, rfl⟩ := Option.map_eq_some_iff.1 completed
      obtain ⟨infos, observed, last, rounds, rfl⟩ := ih finished
      exact ⟨info :: infos, _, last, .next result rounds, by rw [List.append_assoc]⟩

theorem complete_unlimited (completed : machine.complete limit steps = some ended)
    (timely : ¬ended.TimedOut) : machine.complete none steps = some ended := by
  induction steps generalizing machine ended with
  | zero => cases completed
  | succ steps ih =>
    rw [complete] at completed ⊢
    -- the limit was never met, or else the run would have ended for its length
    have within : machine.exceeds limit = false := by
      cases within : machine.exceeds limit with
      | false => rfl
      | true =>
        rw [turn_of_exceeds within] at completed
        cases completed
        exact absurd rfl timely
    rw [turn_of_within within] at completed
    rw [turn_none]
    split at completed
    · rename_i fault result
      exact completed
    · rename_i result
      exact completed
    · rename_i info result
      obtain ⟨later, finished, rfl⟩ := Option.map_eq_some_iff.1 completed
      rw [ih finished timely]
      rfl

end Machine

end TabScript
