import TabScript.Proofs.Refinement.Rest

/-! Work at its beginning does what the direct style does.

Nothing of a fresh statement is known from before, so that its attempts are its plan carried out. Hence what
a stack still does after a statement is what the direct style does after it. -/

set_option autoImplicit false

namespace TabScript.Direct

variable {σ : Type} {wants : EventKind → Bool} {hosts : Array (HostFunction σ)} {budget : Nat}
  {activity : Activity} {rest : Stack}

theorem attempts_fresh (scope : ScopeId) (node : Node) (fuel : Nat) :
    (attempts wants hosts budget scope node fuel .fresh).Below
      ((Plan.exec ⟨scope, wants, hosts⟩ node).direct (call wants hosts budget)) := by
  intro tally result reached
  exact attempts_course budget scope node fuel (rfl : Replay.fresh.rewind = .behind [] [] false)
    (Evaluation.follows_exec ⟨scope, wants, hosts⟩ node [] tally.world) reached

theorem resume_fresh (fresh : activity.replay = .fresh) (node : Node) :
    (resume wants hosts budget activity node).Below
      (statement wants hosts (budget + 1) activity.scope node) := by
  have counted : countOnce activity = (count : Direct σ Unit) := by
    simp [countOnce, fresh, Replay.fresh]
  rw [statement_eq, resume, counted, fresh]
  refine (Below.refl _).bind fun _ => ?_
  exact (attempts_fresh activity.scope node budget).bind fun flow => .refl _

theorem finish_fresh (fresh : activity.replay = .fresh) {nodes : List Node}
    (work : activity.work = .statements nodes) :
    (finish wants hosts budget activity).Below
      (block wants hosts (budget + 2) activity.scope nodes) := by
  have grows : Grows wants hosts budget (budget + 1) := grows_succ budget
  cases nodes with
  | nil =>
    have none_ : activity.current? = none := by simp [Activity.current?, work]
    rw [finish, none_, block]
    exact .refl _
  | cons node nodes =>
    have current : activity.current? = some node := by simp [Activity.current?, work]
    rw [finish, current, block]
    refine (resume_fresh fresh node).bind fun ending => ?_
    cases ending with
    | next =>
      simp only [remaining, work, List.tail_cons]
      exact grows.block _ _
    | returned value span => exact .refl _

theorem finish_header (fresh : activity.replay = .fresh) {loop : Node}
    (work : activity.work = .header loop) :
    (finish wants hosts budget activity).Below
      (statement wants hosts (budget + 1) activity.scope loop) := by
  have current : activity.current? = some loop := by simp [Activity.current?, work]
  rw [finish, current]
  intro tally result reached
  refine (resume_fresh fresh loop) tally result ?_
  -- behind the condition of a loop the activity has no statement left
  rw [← bind_pure (resume wants hosts budget activity loop), ← reached]
  refine congrFun (bind_congr fun ending => ?_) tally
  cases ending with
  | next => simp [remaining, work]
  | returned value span => rfl

theorem conclude_grows {below lower : Signal → Direct σ Unit}
    (rest : ∀ signal, (below signal).Below (lower signal)) (ending : Ending) :
    (conclude wants hosts budget activity below ending).Below
      (conclude wants hosts (budget + 2) activity lower ending) :=
  (conclude_below budget activity rest ending).trans
    (conclude_below (budget + 1) activity (fun _ => .refl _) ending)

theorem follow_grows (signal : Signal) :
    (follow wants hosts budget rest signal).Below (follow wants hosts (budget + 2) rest signal) :=
  (follow_below budget rest signal).trans (follow_below (budget + 1) rest signal)

theorem conclude_left {nodes : List Node} (work : activity.work = .statements nodes)
    (remaining : List Node) (below : Signal → Direct σ Unit) :
    conclude wants hosts budget { activity with work := .statements remaining, replay := .fresh }
      below = conclude wants hosts budget activity below := by
  funext ending
  cases ending with
  | next =>
    simp only [conclude, work]
    cases activity.sequel <;> rfl
  | returned value span => rfl

/-- Behind a statement that is done, the other statements of the same work follow. -/
theorem follow_resume :
    (follow wants hosts budget (Stack.resume activity rest) .next).Below
      (remaining wants hosts (budget + 2) activity >>=
        conclude wants hosts (budget + 2) activity (follow wants hosts (budget + 2) rest)) := by
  have larger : ∀ signal, (follow wants hosts budget rest signal).Below
      (follow wants hosts (budget + 2) rest signal) := follow_grows
  unfold Stack.resume
  cases work : activity.work with
  | header loop =>
    have next : activity.next? = none := by simp [Activity.next?, work]
    rw [next]
    simp only [remaining, work, pure_bind, conclude]
    exact larger .next
  | statements nodes =>
    by_cases spent : nodes.tail = [] ∧ activity.sequel = .nothing
    · have next : activity.next? = none := by simp [Activity.next?, work, spent]
      rw [next]
      simp only [remaining, work, spent.1, block, pure_bind, conclude, spent.2]
      exact larger .next
    · have next : activity.next? =
          some { activity with work := .statements nodes.tail, replay := .fresh } := by
        simp only [Activity.next?, work]
        split
        · rename_i none_ nothing_
          exact absurd ⟨none_, nothing_⟩ spent
        · rfl
      rw [next]
      simp only [follow, conclude_left work]
      simp only [remaining, work]
      exact (finish_fresh rfl rfl).bind fun ending => conclude_grows larger ending

theorem follow_resume_returned (proper : activity.sequel = .return →
      ∃ nodes, activity.work = .statements nodes) (value : Value) (span : Span) :
    follow wants hosts budget (Stack.resume activity rest) (.returned value span) =
      conclude wants hosts budget activity (follow wants hosts budget rest) (.returned value span) := by
  unfold Stack.resume
  cases work : activity.work with
  | header loop =>
    have next : activity.next? = none := by simp [Activity.next?, work]
    rw [next]
    cases sequel : activity.sequel with
    | «return» =>
      obtain ⟨nodes, impossible⟩ := proper sequel
      rw [work] at impossible
      cases impossible
    | nothing => simp only [conclude, sequel]
    | recheck loop => simp only [conclude, sequel]
  | statements nodes =>
    cases next : activity.next? with
    | none =>
      simp only [Activity.next?, work] at next
      split at next
      · rename_i sequel
        simp only [conclude, sequel]
      · cases next
    | some left =>
      simp only [Activity.next?, work] at next
      split at next
      · cases next
      · cases next
        rfl

theorem follow_fresh (fresh : activity.replay = .fresh) (stays : activity.sequel ≠ .return) :
    (follow wants hosts budget (.running activity :: rest) .next).Below
      (work wants hosts (budget + 2) activity >>= fun ending =>
        follow wants hosts (budget + 2) rest ending.signal) := by
  have larger : ∀ signal, (follow wants hosts budget rest signal).Below
      (follow wants hosts (budget + 2) rest signal) := follow_grows
  have grows : Grows wants hosts (budget + 1) (budget + 2) := grows_succ (budget + 1)
  unfold Direct.work
  rw [follow]
  cases held : activity.work with
  | header loop =>
    refine ((finish_header fresh held).trans (grows.statement _ _)).bind fun ending => ?_
    cases ending with
    | next =>
      simp only [conclude, held]
      exact larger .next
    | returned value span =>
      cases sequel : activity.sequel with
      | «return» => exact absurd sequel stays
      | nothing =>
        simp only [conclude, sequel]
        exact larger _
      | recheck loop =>
        simp only [conclude, sequel]
        exact larger _
  | statements nodes =>
    cases sequel : activity.sequel with
    | «return» => exact absurd sequel stays
    | nothing =>
      refine (finish_fresh fresh held).bind fun ending => ?_
      cases ending <;> simp only [conclude, held, sequel] <;> exact larger _
    | recheck loop =>
      simp only [bind_assoc]
      refine (finish_fresh fresh held).bind fun ending => ?_
      cases ending with
      | next =>
        simp only [conclude, held, sequel]
        -- the round is over and both run the loop once more, one of them with the larger budget
        have before : Grows wants hosts budget (budget + 1) := grows_succ budget
        exact ((before.statement _ _).trans (grows.statement _ _)).bind fun ending => larger _
      | returned value span =>
        simp only [conclude, sequel, pure_bind]
        exact larger _

end TabScript.Direct
