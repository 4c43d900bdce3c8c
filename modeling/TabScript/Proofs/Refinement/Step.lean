import TabScript.Proofs.Refinement.Fresh
import TabScript.Proofs.Hoard.Hoard

/-! What a step does is part of what was left to be done before it.

Whatever the direct style makes of the stack after a step, it makes of the stack before it too. -/

set_option autoImplicit false

namespace TabScript

variable {σ : Type}

namespace Direct

variable {wants : EventKind → Bool} {hosts : Array (HostFunction σ)}

def Results (wants : EventKind → Bool) (hosts : Array (HostFunction σ)) (stack : Stack)
    (tally : Tally σ) (result : Except Fault Unit × Tally σ) : Prop :=
  ∃ budget, follow wants hosts budget stack .next tally = some result

theorem current?_eq_none {activity : Activity} (spent : activity.current? = none) :
    activity.work = .statements [] := by
  unfold Activity.current? at spent
  cases work : activity.work with
  | header loop => simp [work] at spent
  | statements nodes =>
    cases nodes with
    | nil => rfl
    | cons node nodes => simp [work] at spent

theorem results_enter {memory larger : Memory} {scope : ScopeId} {closure : Closure}
    {arguments : List Value} (entered : memory.enter closure arguments = (scope, larger))
    {rest : Stack} {world : World σ} {executed : Nat} {result : Except Fault Unit × Tally σ}
    (reached : Results wants hosts (.running (.body closure scope) :: rest)
      ⟨{ world with memory := larger }, executed⟩ result) :
    Results wants hosts (.entering closure arguments :: rest)
      ⟨{ world with memory := memory }, executed⟩ result := by
  obtain ⟨budget, reached⟩ := reached
  have larger' : ∀ signal, (follow wants hosts budget rest signal).Below
      (follow wants hosts (budget + 3) rest signal) := fun signal =>
    (follow_grows signal).trans (follow_below (budget + 2) rest signal)
  have opened : enter closure arguments ⟨{ world with memory := memory }, executed⟩ =
      some (.ok scope, ⟨{ world with memory := larger }, executed⟩) := by
    simp only [enter, entered]
  refine ⟨budget + 3, ?_⟩
  change (call wants hosts (budget + 3) closure arguments >>= fun value =>
    follow wants hosts (budget + 3) rest (.value value)) _ = _
  rw [Direct.call]
  simp only [bind_assoc]
  rw [bind_apply, opened]
  -- what the body comes to is passed on, whether it ends or returns
  refine (finish_fresh rfl rfl).bind (fun ending => ?_) _ _ reached
  cases ending <;> simp only [pure_bind] <;> exact larger' _

/-- Bringing the top of the stack to a statement is part of what is left. -/
theorem results_settle (memory : Memory) (stack : Stack) {world : World σ} {executed : Nat}
    {result : Except Fault Unit × Tally σ}
    (reached : Results wants hosts (memory.settleWith Memory.keep stack).stack
      ⟨{ world with memory := (memory.settleWith Memory.keep stack).memory }, executed⟩ result) :
    Results wants hosts stack ⟨{ world with memory := memory }, executed⟩ result := by
  induction memory, stack using Memory.settleWith.induct Memory.keep with
  | case1 memory =>
    rw [Memory.settleWith_nil] at reached
    exact reached
  | case2 memory closure arguments rest scope larger entered ih =>
    rw [Memory.settleWith_entering, entered] at reached
    exact results_enter entered (ih reached)
  | case3 memory activity rest node current =>
    rw [Memory.settleWith_statement current] at reached
    exact reached
  | case4 memory activity rest sequel spent ih =>
    rw [Memory.settleWith_nothing spent sequel] at reached
    obtain ⟨budget, reached⟩ := ih reached
    refine ⟨budget, ?_⟩
    rw [follow, finish, spent]
    simp only [pure_bind, conclude, current?_eq_none spent, sequel]
    exact reached
  | case5 memory activity rest loop sequel spent =>
    rw [Memory.settleWith_recheck spent sequel] at reached
    obtain ⟨budget, reached⟩ := reached
    -- to look at the condition again is to run the whole loop once more, which takes one call of the budget
    have larger' : ∀ signal, (follow wants hosts budget rest signal).Below
        (follow wants hosts (budget + 1) rest signal) := follow_below budget rest
    have header : (follow wants hosts budget
          (.running (.header loop activity.scope) :: rest) .next).Below
        (statement wants hosts (budget + 1) activity.scope loop >>= fun ending =>
          follow wants hosts (budget + 1) rest ending.signal) := by
      refine (finish_header rfl rfl).bind fun ending => ?_
      cases ending <;> exact larger' _
    refine ⟨budget + 1, ?_⟩
    rw [follow, finish, spent]
    simp only [pure_bind, conclude, current?_eq_none spent, sequel]
    exact header _ _ reached
  | case6 memory activity rest sequel spent delivered =>
    rename_i ih
    rw [Memory.settleWith_return spent sequel] at reached
    obtain ⟨budget, reached⟩ := ih reached
    refine ⟨budget, ?_⟩
    rw [follow, finish, spent]
    simp only [pure_bind, conclude, current?_eq_none spent, sequel]
    rw [← follow_deliver]
    exact reached

section
variable {budget : Nat} {activity : Activity} (replay : Replay) {rest : Stack}

theorem behind_next :
    (follow wants hosts budget (Stack.resume { activity with replay := replay } rest) .next).Below
      (behind wants hosts (budget + 2) activity (follow wants hosts (budget + 2) rest) .next) :=
  follow_resume

theorem behind_enter {inner : Activity} (fresh : inner.replay = .fresh)
    (stays : inner.sequel ≠ .return)
    (proper : activity.sequel = .return → ∃ nodes, activity.work = .statements nodes) :
    (follow wants hosts budget
        (.running inner :: Stack.resume { activity with replay := replay } rest) .next).Below
      (work wants hosts (budget + 4) inner >>=
        behind wants hosts (budget + 4) activity (follow wants hosts (budget + 4) rest)) := by
  have grows : Grows wants hosts (budget + 2) (budget + 3) := grows_succ (budget + 2)
  have grows' : Grows wants hosts (budget + 3) (budget + 4) := grows_succ (budget + 3)
  refine (follow_fresh fresh stays).trans ?_
  refine ((grows.work inner).trans (grows'.work inner)).bind fun ending => ?_
  cases ending with
  | next => exact behind_next replay
  | returned value span =>
    have passes : follow wants hosts (budget + 2)
          (Stack.resume { activity with replay := replay } rest) (.returned value span) =
        conclude wants hosts (budget + 2) activity (follow wants hosts (budget + 2) rest)
          (.returned value span) := follow_resume_returned proper value span
    rw [Ending.signal, passes]
    exact conclude_grows follow_grows _

theorem behind_leave {callee : ScopeId} {lower : Stack} {value : Value}
    (left : Stack.unwind (.running { activity with replay := replay } :: rest) =
      some (callee, lower)) (span : Span) :
    (follow wants hosts budget (Stack.deliver value lower) .next).Below
      (behind wants hosts (budget + 1) activity (follow wants hosts (budget + 1) rest)
        (.returned value span)) := by
  have unwound : follow wants hosts budget (.running { activity with replay := replay } :: rest)
      (.returned value span) = follow wants hosts budget lower (.value value) :=
    follow_unwind budget value span left
  rw [follow_deliver, ← unwound]
  exact follow_below budget (.running { activity with replay := replay } :: rest) _

theorem behind_suspend {node : Node} (current : activity.current? = some node) (closure : Closure)
    (arguments : List Value) (answered : ∀ value, (replay.deliver value).resumed = true) :
    (follow wants hosts budget
        (.entering closure arguments :: .running { activity with replay := replay } :: rest)
        .next).Below
      ((call wants hosts (budget + 1) closure arguments >>= fun value =>
          attempts wants hosts (budget + 1) activity.scope node budget (replay.deliver value)) >>=
        fun flow => pursue wants hosts (budget + 1) node flow >>=
          behind wants hosts (budget + 1) activity (follow wants hosts (budget + 1) rest)) := by
  have grows : Grows wants hosts budget (budget + 1) := grows_succ budget
  rw [bind_assoc]
  refine (grows.call closure arguments).bind fun value => ?_
  -- a statement that has been answered is resumed, and is not counted again
  have counted : countOnce { activity with replay := replay.deliver value } = (pure () : Direct σ Unit) := by
    simp [countOnce, answered value]
  have current' : Activity.current? { activity with replay := replay.deliver value } = some node :=
    current
  have unfolded : follow wants hosts budget (.running { activity with replay := replay } :: rest)
        (.value value) =
      countOnce { activity with replay := replay.deliver value } >>= fun _ =>
        attempts wants hosts budget activity.scope node budget (replay.deliver value) >>= fun flow =>
          pursue wants hosts budget node flow >>=
            behind wants hosts budget activity (follow wants hosts budget rest) :=
    finish_conclude budget current' rfl rfl _
  rw [unfolded, counted, pure_bind]
  refine (attempts_below budget activity.scope node budget 0 _).bind fun flow => ?_
  refine (grows.pursue node flow).bind fun ending => ?_
  exact behind_below budget activity (follow_below budget rest) ending

end

section
variable {activity : Activity} {node : Node} (current : activity.current? = some node) {rest : Stack}
  {world : World σ} {executed : Nat}
include current

/-- The first attempt at the statement on top, and what comes after it. -/
theorem follow_running (budget : Nat) :
    follow wants hosts (budget + 1) (.running activity :: rest) .next ⟨world, executed⟩ =
      match attempted wants hosts (budget + 1)
          (attempts wants hosts (budget + 1) activity.scope node budget)
          (executed + if activity.replay.resumed then 0 else 1)
          (Evaluation.exec ⟨activity.scope, wants, hosts⟩ node
            (world.progress activity.replay.rewind)) with
      | none => none
      | some (.ok flow, later) =>
        (pursue wants hosts (budget + 1) node flow >>=
          behind wants hosts (budget + 1) activity (follow wants hosts (budget + 1) rest)) later
      | some (.error fault, later) => some (.error fault, later) := by
  have counted : countOnce activity ⟨world, executed⟩ =
      some (.ok (), ⟨world, executed + if activity.replay.resumed then 0 else 1⟩) := by
    unfold countOnce
    cases activity.replay.resumed <;> rfl
  rw [follow, finish_conclude (budget + 1) current rfl rfl, bind_apply, counted]
  dsimp only
  rw [bind_apply, attempts_succ]
  rcases attempted wants hosts (budget + 1)
    (attempts wants hosts (budget + 1) activity.scope node budget) _ _ with _ | ⟨_ | _, later⟩ <;> rfl

variable {reached : Except Interrupt Flow × Progress σ}
  (attempt : Evaluation.exec ⟨activity.scope, wants, hosts⟩ node
    (world.progress activity.replay.rewind) = reached)
include attempt

theorem results_failed (lost : Stack.proceed { activity with replay := reached.2.replay } rest
      reached.1 = none) :
    Results wants hosts (.running activity :: rest) ⟨world, executed⟩
      (.error (Stack.failure node.span reached.1),
        ⟨reached.2.world, executed + if activity.replay.resumed then 0 else 1⟩) := by
  refine ⟨1, ?_⟩
  rw [follow_running current, attempt]
  rcases reached with ⟨(fault | ⟨closure, arguments⟩) | (_ | inner | value), after⟩
  · rfl
  · cases lost
  · cases lost
  · cases lost
  · have outside : Stack.unwind (.running { activity with replay := after.replay } :: rest) = none :=
      Option.map_eq_none_iff.1 lost
    have thrown : follow wants hosts 1 (.running { activity with replay := after.replay } :: rest)
        (.returned value node.span) = throw ⟨.returnOutsideFunction, node.span⟩ :=
      follow_lost 1 value node.span outside
    simp only [attempted, pursue, pure_bind, behind]
    change follow wants hosts 1 (.running { activity with replay := after.replay } :: rest)
      (.returned value node.span) _ = _
    rw [thrown]
    rfl

/-- Where the run goes on, what is left after the statement is part of what was left before it. -/
theorem results_proceed (proper : activity.sequel = .return →
      ∃ nodes, activity.work = .statements nodes)
    (answered : ∀ closure arguments, reached.1 = .error (.suspend closure arguments) →
      ∀ value, (reached.2.replay.deliver value).resumed = true)
    (nested : ∀ inner, reached.1 = .ok (.enter inner) →
      inner.replay = .fresh ∧ inner.sequel ≠ .return)
    {stack : Stack} (goes : Stack.proceed { activity with replay := reached.2.replay } rest
      reached.1 = some stack) {result : Except Fault Unit × Tally σ}
    (after : Results wants hosts stack
      ⟨reached.2.world, executed + if activity.replay.resumed then 0 else 1⟩ result) :
    Results wants hosts (.running activity :: rest) ⟨world, executed⟩ result := by
  obtain ⟨budget, after⟩ := after
  -- in turn: a failure, a call, the next statement, an inner block and a return
  rcases reached with ⟨(fault | ⟨closure, arguments⟩) | (_ | inner | value), later⟩
  · cases goes
  · cases goes
    refine ⟨budget + 1, ?_⟩
    rw [follow_running current, attempt]
    have found := behind_suspend later.replay current closure arguments
      (answered closure arguments rfl) _ _ after
    rw [bind_apply] at found
    simp only [attempted]
    generalize (call wants hosts (budget + 1) closure arguments >>= fun value =>
      attempts wants hosts (budget + 1) activity.scope node budget (later.replay.deliver value))
        ⟨later.world, executed + if activity.replay.resumed then 0 else 1⟩ = answer at found ⊢
    rcases answer with _ | ⟨_ | _, later⟩ <;> exact found
  · cases goes
    refine ⟨budget + 2, ?_⟩
    rw [follow_running current, attempt]
    simp only [attempted, pursue, pure_bind]
    exact behind_next later.replay _ _ after
  · cases goes
    obtain ⟨fresh, stays⟩ := nested inner rfl
    refine ⟨budget + 4, ?_⟩
    rw [follow_running current, attempt]
    simp only [attempted, pursue]
    exact behind_enter later.replay fresh stays proper _ _ after
  · obtain ⟨⟨callee, lower⟩, left, rfl⟩ := Option.map_eq_some_iff.1 goes
    refine ⟨budget + 1, ?_⟩
    rw [follow_running current, attempt]
    simp only [attempted, pursue, pure_bind]
    exact behind_leave later.replay left node.span _ _ after

end

end Direct

end TabScript
