import TabScript.Proofs.Reference.Planned
import TabScript.Proofs.Replay.Statement
import TabScript.Proofs.Stack.Shape

/-! What is left of a run, in the direct style.

A statement that was left at a call is attempted again from its start when the call has returned, and the
work below it goes on as the direct style would. Work at its beginning does what the direct style does. -/

set_option autoImplicit false

namespace TabScript

variable {σ α β : Type}

/-- What work learns of the end of the work above it. -/
inductive Signal where
  | next
  | value (value : Value)
  | returned (value : Value) (span : Span)

def Ending.signal : Ending → Signal
  | next => .next
  | returned value span => .returned value span

namespace Direct

variable (wants : EventKind → Bool) (hosts : Array (HostFunction σ))

def attempted (budget : Nat) (retry : Replay → Direct σ Flow) (executed : Nat) :
    Except Interrupt Flow × Progress σ → Option (Except Fault Flow × Tally σ)
  | (.ok flow, after) => some (.ok flow, ⟨after.world, executed⟩)
  | (.error (.fail fault), after) => some (.error fault, ⟨after.world, executed⟩)
  | (.error (.suspend closure arguments), after) =>
    (call wants hosts budget closure arguments >>= fun value => retry (after.replay.deliver value))
      ⟨after.world, executed⟩

def attempts (budget : Nat) (scope : ScopeId) (node : Node) : Nat → Replay → Direct σ Flow
  | 0, _ => exhausted
  | fuel + 1, replay => fun tally =>
    attempted wants hosts budget (attempts budget scope node fuel) tally.executed
      (Evaluation.exec ⟨scope, wants, hosts⟩ node (tally.world.progress replay.rewind))

def countOnce (activity : Activity) : Direct σ Unit :=
  if activity.replay.resumed then pure () else count

def resume (budget : Nat) (activity : Activity) (node : Node) : Direct σ Ending := do
  countOnce activity
  let flow ← attempts wants hosts budget activity.scope node budget activity.replay
  pursue wants hosts budget node flow

def remaining (budget : Nat) (activity : Activity) : Direct σ Ending :=
  match activity.work with
  | .statements nodes => block wants hosts budget activity.scope nodes.tail
  | .header _ => return .next

def finish (budget : Nat) (activity : Activity) : Direct σ Ending :=
  match activity.current? with
  | none => return .next
  | some node => do
    match ← resume wants hosts budget activity node with
    | .next => remaining wants hosts budget activity
    | .returned value span => return .returned value span

def conclude (budget : Nat) (activity : Activity) (below : Signal → Direct σ Unit) :
    Ending → Direct σ Unit
  | .next =>
    match activity.work, activity.sequel with
    | .statements _, .recheck loop =>
      statement wants hosts budget activity.scope loop >>= fun ending => below ending.signal
    | .statements _, .return => below (.value .none)
    | _, _ => below .next
  | .returned value span =>
    match activity.sequel with
    | .return => below (.value value)
    | _ => below (.returned value span)

/-- What comes when a statement is done. -/
def behind (budget : Nat) (activity : Activity) (below : Signal → Direct σ Unit) :
    Ending → Direct σ Unit
  | .next => remaining wants hosts budget activity >>= conclude wants hosts budget activity below
  | .returned value span => conclude wants hosts budget activity below (.returned value span)

def finale : Direct σ Unit :=
  act do
    let memory := (← get).memory
    Evaluation.emit (.exit (memory.scopes.snapshot memory.heap Arena.global))

def follow (budget : Nat) : Stack → Signal → Direct σ Unit
  | [], .returned _ span => throw ⟨.returnOutsideFunction, span⟩
  | [], _ => finale
  | .entering _ _ :: rest, .returned value _ => follow budget rest (.value value)
  | .entering closure arguments :: rest, _ =>
    call wants hosts budget closure arguments >>= fun value => follow budget rest (.value value)
  | .running activity :: rest, .next =>
    finish wants hosts budget activity >>= conclude wants hosts budget activity (follow budget rest)
  | .running activity :: rest, .value value =>
    finish wants hosts budget { activity with replay := activity.replay.deliver value } >>=
      conclude wants hosts budget activity (follow budget rest)
  | .running activity :: rest, .returned value span =>
    conclude wants hosts budget activity (follow budget rest) (.returned value span)

variable {wants : EventKind → Bool} {hosts : Array (HostFunction σ)}

theorem finish_conclude (budget : Nat) {activity other : Activity} {node : Node}
    (current : activity.current? = some node) (work : activity.work = other.work)
    (scope : activity.scope = other.scope) (below : Signal → Direct σ Unit) :
    finish wants hosts budget activity >>= conclude wants hosts budget other below =
      countOnce activity >>= fun _ =>
        attempts wants hosts budget activity.scope node budget activity.replay >>= fun flow =>
          pursue wants hosts budget node flow >>= behind wants hosts budget other below := by
  have rest : remaining wants hosts budget activity = remaining wants hosts budget other := by
    simp only [remaining, work, scope]
  simp only [finish, current, resume, bind_assoc]
  congr 1
  funext counted
  congr 1
  funext flow
  congr 1
  funext ending
  cases ending with
  | next => simp only [behind, rest]
  | returned value span => simp only [behind, pure_bind]

theorem follow_deliver (budget : Nat) (value : Value) (stack : Stack) :
    follow wants hosts budget (Stack.deliver value stack) .next =
      follow wants hosts budget stack (.value value) := by
  rcases stack with _ | ⟨_ | activity, rest⟩ <;> rfl

/-- A return passes over everything up to the body of the innermost call. -/
theorem follow_unwind (budget : Nat) (value : Value) (span : Span) {stack rest : Stack}
    {callee : ScopeId} (left : Stack.unwind stack = some (callee, rest)) :
    follow wants hosts budget stack (.returned value span) =
      follow wants hosts budget rest (.value value) := by
  induction stack with
  | nil => cases left
  | cons top below ih =>
    rw [Stack.unwind] at left
    cases top with
    | entering closure arguments =>
      simp only [Continuation.isCall, if_true] at left
      cases left
      rfl
    | running activity =>
      rw [follow, conclude]
      cases sequel : activity.sequel <;>
        simp only [Continuation.isCall, sequel, Bool.false_eq_true, if_false, if_true] at left ⊢
      · exact ih left
      · exact ih left
      · cases left
        rfl

theorem follow_lost (budget : Nat) (value : Value) (span : Span) {stack : Stack}
    (lost : Stack.unwind stack = none) :
    follow wants hosts budget stack (.returned value span) =
      throw ⟨.returnOutsideFunction, span⟩ := by
  induction stack with
  | nil => rfl
  | cons top below ih =>
    rw [Stack.unwind] at lost
    cases top with
    | entering closure arguments => simp [Continuation.isCall] at lost
    | running activity =>
      rw [follow, conclude]
      cases sequel : activity.sequel <;>
        simp only [Continuation.isCall, sequel, Bool.false_eq_true, if_false, if_true] at lost ⊢
      · exact ih lost
      · exact ih lost
      · cases lost

theorem attempts_succ (budget : Nat) (scope : ScopeId) (node : Node) (fuel : Nat) (replay : Replay)
    (tally : Tally σ) :
    attempts wants hosts budget scope node (fuel + 1) replay tally =
      attempted wants hosts budget (attempts wants hosts budget scope node fuel) tally.executed
        (Evaluation.exec ⟨scope, wants, hosts⟩ node (tally.world.progress replay.rewind)) := rfl

section
variable (budget : Nat)

theorem attempts_below (scope : ScopeId) (node : Node) (fuel more : Nat) (replay : Replay) :
    (attempts wants hosts budget scope node fuel replay).Below
      (attempts wants hosts (budget + 1) scope node (fuel + more) replay) := by
  induction fuel generalizing replay with
  | zero =>
    intro tally result reached
    cases reached
  | succ fuel ih =>
    intro tally result reached
    rw [Nat.succ_add, attempts_succ]
    rw [attempts_succ] at reached
    generalize Evaluation.exec ⟨scope, wants, hosts⟩ node (tally.world.progress replay.rewind) =
      ended at reached ⊢
    rcases ended with ⟨(fault | ⟨closure, arguments⟩) | flow, after⟩
    · exact reached
    · have grows : Grows wants hosts budget (budget + 1) := grows_succ budget
      have rest := (grows.call closure arguments).bind fun value =>
        ih (after.replay.deliver value)
      exact rest _ _ reached
    · exact reached

theorem resume_below (activity : Activity) (node : Node) :
    (resume wants hosts budget activity node).Below (resume wants hosts (budget + 1) activity node) := by
  refine (Below.refl _).bind fun counted => ?_
  refine (attempts_below budget _ _ _ 1 _).bind fun flow => ?_
  exact (grows_succ budget).pursue node flow

theorem remaining_below (activity : Activity) :
    (remaining wants hosts budget activity).Below (remaining wants hosts (budget + 1) activity) := by
  unfold remaining
  cases activity.work with
  | statements nodes => exact (grows_succ budget).block _ _
  | header loop => exact .refl _

theorem finish_below (activity : Activity) :
    (finish wants hosts budget activity).Below (finish wants hosts (budget + 1) activity) := by
  unfold finish
  cases activity.current? with
  | none => exact .refl _
  | some node =>
    refine (resume_below budget activity node).bind fun ending => ?_
    cases ending with
    | next => exact remaining_below budget activity
    | returned value span => exact .refl _

theorem conclude_below (activity : Activity) {below lower : Signal → Direct σ Unit}
    (rest : ∀ signal, (below signal).Below (lower signal)) (ending : Ending) :
    (conclude wants hosts budget activity below ending).Below
      (conclude wants hosts (budget + 1) activity lower ending) := by
  cases ending with
  | next =>
    unfold conclude
    cases activity.work with
    | header loop => exact rest _
    | statements nodes =>
      cases activity.sequel with
      | nothing => exact rest _
      | recheck loop => exact ((grows_succ budget).statement _ _).bind fun ending => rest _
      | «return» => exact rest _
  | returned value span =>
    unfold conclude
    cases activity.sequel <;> exact rest _

theorem behind_below (activity : Activity) {below lower : Signal → Direct σ Unit}
    (rest : ∀ signal, (below signal).Below (lower signal)) (ending : Ending) :
    (behind wants hosts budget activity below ending).Below
      (behind wants hosts (budget + 1) activity lower ending) := by
  cases ending with
  | next =>
    exact (remaining_below budget activity).bind fun ending =>
      conclude_below budget activity rest ending
  | returned value span =>
    rw [behind, behind]
    exact conclude_below budget activity rest _

theorem follow_below (stack : Stack) (signal : Signal) :
    (follow wants hosts budget stack signal).Below (follow wants hosts (budget + 1) stack signal) := by
  induction stack generalizing signal with
  | nil => cases signal <;> exact .refl _
  | cons top rest ih =>
    cases top with
    | entering closure arguments =>
      have grows : Grows wants hosts budget (budget + 1) := grows_succ budget
      have entered := (grows.call closure arguments).bind fun value => ih (.value value)
      cases signal with
      | next => exact entered
      | value value => exact entered
      | returned value span => exact ih (.value value)
    | running activity =>
      cases signal with
      | next =>
        exact (finish_below budget activity).bind fun ending =>
          conclude_below budget activity ih ending
      | value value =>
        exact (finish_below budget _).bind fun ending => conclude_below budget activity ih ending
      | returned value span => exact conclude_below budget activity ih _

end

theorem attempts_course (budget : Nat) (scope : ScopeId) (node : Node) (fuel : Nat)
    {course : Course σ Flow} {replay : Replay} {log : List Slot} {resumed : Bool} {world : World σ}
    {executed : Nat} {result : Except Fault Flow × Tally σ}
    (begins : replay.rewind = .behind [] log resumed)
    (ends : Evaluation.Ends (Evaluation.exec ⟨scope, wants, hosts⟩ node) [] (fun _ _ => True)
      (fun _ => False) course fun resumed =>
        Evaluation.exec ⟨scope, wants, hosts⟩ node (world.progress (.behind [] log resumed)))
    (reached : attempts wants hosts budget scope node fuel replay ⟨world, executed⟩ = some result) :
    course.complete (call wants hosts budget) executed = some result := by
  induction fuel generalizing course replay log resumed world executed with
  | zero => cases reached
  | succ fuel ih =>
    rw [attempts_succ, begins] at reached
    rcases course with ⟨fault | flow, later⟩ | ⟨closure, arguments, later, resume⟩
    · obtain ⟨replay', -, ended⟩ := ends resumed
      simp only [ended] at reached
      exact reached
    · obtain ⟨log', -, ended⟩ := ends
      simp only [ended resumed] at reached
      exact reached
    · rcases ends with ⟨-, impossible, -⟩ | ⟨log', slot, stop, cursor, empty, ended, goesOn⟩
      · exact impossible.elim
      · simp only [ended resumed, attempted, bind_apply, World.world_progress] at reached
        rw [Course.complete]
        generalize call wants hosts budget closure arguments ⟨later, executed⟩ = answer at reached ⊢
        rcases answer with _ | ⟨fault | value, between⟩
        · exact reached
        · exact reached
        · have filled : slot < log'.length := (List.getElem?_eq_some_iff.1 empty).1
          -- the answer fills the slot that waited, and the next attempt begins with that log
          have next : Replay.rewind (Replay.deliver
              ⟨([] ++ log').toArray, cursor, some (([] : List Slot).length + slot, stop), resumed⟩
              value) = .behind [] (log'.set slot (some ⟨value, stop⟩)) true := by
            simp [Replay.deliver, Replay.rewind, Replay.behind, filled]
          exact ih next (goesOn value between.world) reached

end Direct

end TabScript
