import TabScript.Proofs.Accounting.Owed
import TabScript.Proofs.Limits.Boundary

/-! The steps of a run that comes to its end, as executions of statements.

Every statement that was begun is gone on with when its call returns, so the steps are nested as the calls are:
between two reports of one execution stands all that was executed for the call, and nothing else. -/

set_option autoImplicit false

namespace TabScript

variable {σ : Type}

namespace Segment

def isPending : Segment → Bool
  | pending _ => true
  | active .. => false

def isCall (segment : Segment) : Bool := segment.call?.isSome

theorem Passes.tally {first last : List Segment} {passages : List Passage}
    (passes : Passes σ first passages last) :
    first.countP isPending + passages.countP Passage.isCall =
        last.countP isPending + passages.countP Passage.isEntry ∧
      first.countP isCall + passages.countP Passage.isCall =
        last.countP isCall + passages.countP Passage.isReturn := by
  induction passes with
  | done segments => exact ⟨rfl, rfl⟩
  | inside _ _ ih => exact ih
  | entered _ ih =>
    simp only [List.countP_cons, isPending, isCall, call?, Passage.isCall, Passage.isEntry,
      Passage.isReturn] at ih ⊢
    simp only [Option.isSome_some, if_true, Bool.false_eq_true, if_false] at ih ⊢
    omega
  | @called _ owner _ _ _ _ _ _ _ _ _ _ ih =>
    simp only [List.countP_cons, isPending, isCall, call?, Passage.isCall, Passage.isEntry,
      Passage.isReturn] at ih ⊢
    cases owner <;>
    · simp only [Option.isSome_some, Option.isSome_none, if_true, Bool.false_eq_true, if_false] at ih ⊢
      omega
  | returned answers _ ih =>
    obtain @⟨_, _, _, owner⟩ := answers
    simp only [List.countP_cons, isPending, isCall, call?, Passage.isCall, Passage.isEntry,
      Passage.isReturn] at ih ⊢
    cases owner <;>
    · simp only [Option.isSome_some, Option.isSome_none, if_true, Bool.false_eq_true, if_false] at ih ⊢
      omega

end Segment

theorem Memory.settleWith_calls (release : Memory → ScopeId → Stack → Memory) (memory : Memory)
    (stack : Stack) : (memory.settleWith release stack).passages.countP Passage.isCall = 0 := by
  induction memory, stack using settleWith.induct release with
  | case1 memory =>
    rw [settleWith_nil]
    rfl
  | case2 memory closure arguments rest scope larger entered ih =>
    rw [settleWith_entering, entered]
    exact ih
  | case3 memory activity rest node current =>
    rw [settleWith_statement current]
    rfl
  | case4 memory activity rest sequel spent ih =>
    rw [settleWith_nothing spent sequel]
    exact ih
  | case5 memory activity rest loop sequel spent =>
    rw [settleWith_recheck spent sequel]
    rfl
  | case6 memory activity rest sequel spent delivered ih =>
    rw [settleWith_return spent sequel]
    exact ih

namespace Machine

variable {machine last : Machine σ} {reports : List Report} {passages : List Passage}

def report (machine : Machine σ) (info : StepInfo) : Report :=
  ⟨info, machine.step.machine.executed - machine.executed, machine.asked?⟩

/-- Steps to the end of a program, with the reports of those that run a statement. The passages tell which calls
are asked for, entered and left on the way. -/
inductive Exits : Machine σ → List Report → List Passage → Machine σ → Prop where
  | exit {machine : Machine σ} (ends : machine.step.result = .ok none) :
    Exits machine [] machine.passages machine.step.machine
  | next {machine last : Machine σ} {info : StepInfo} {reports : List Report} {passages : List Passage}
    (goes : machine.step.result = .ok (some info))
    (further : Exits machine.step.machine reports passages last) :
    Exits machine (machine.report info :: reports) (machine.passages ++ passages) last

theorem exits_of_complete {steps : Nat} {ended : Reaction σ Unit}
    (completed : machine.complete none steps = some ended) (well : ended.result = .ok ()) :
    ∃ reports passages, Exits machine reports passages ended.machine := by
  induction steps generalizing machine ended with
  | zero => cases completed
  | succ steps ih =>
    rcases complete_cases completed with ⟨info, later, goes, finished, rfl⟩ | ⟨result, rfl⟩ | ⟨fault, -, rfl⟩
    · obtain ⟨reports, passages, exits⟩ := ih finished well
      exact ⟨_, _, .next goes exits⟩
    · exact ⟨_, _, .exit result⟩
    · cases well

theorem step_of_continues {info : StepInfo} (goes : machine.step.result = .ok (some info)) :
    machine.status = .running ∧ machine.step.machine.status = .running ∧
      ∃ activity node rest left, machine.settled.next = some (activity, node, rest) ∧
        info = ⟨node.tag, node.span⟩ ∧
        Stack.proceed
          { activity with replay := (machine.attempt machine.settled.memory activity node).2.replay } rest
          (machine.attempt machine.settled.memory activity node).1 = some left ∧
        machine.step.machine.stack = left := by
  obtain ⟨running, activity, node, rest, next⟩ := next_of_continues goes
  rw [step_of_next running next] at goes ⊢
  dsimp only at goes ⊢
  split at goes
  · rename_i left proceeds
    cases goes
    exact ⟨running, running, activity, node, rest, left, next, rfl, proceeds, rfl⟩
  · cases goes

theorem asked?_of_next {activity : Activity} {node : Node} {rest : Stack}
    (next : machine.settled.next = some (activity, node, rest)) :
    machine.asked? =
      Passage.asked? (machine.attempt machine.settled.memory activity node).1 := by
  rw [asked?, flow?, next, Option.map_some]
  dsimp only
  generalize (machine.attempt machine.settled.memory activity node).1 = flow
  rcases flow with (fault | ⟨closure, arguments⟩) | flow <;> rfl

theorem report_of_next (running : machine.status = .running) {activity : Activity} {node : Node}
    {rest : Stack} (next : machine.settled.next = some (activity, node, rest)) (info : StepInfo) :
    machine.report info = ⟨info, if activity.replay.resumed then 0 else 1,
      Passage.asked? (machine.attempt machine.settled.memory activity node).1⟩ := by
  have counted : machine.step.machine.executed - machine.executed = machine.due := by
    rw [executed_step running]
    omega
  rw [report, counted, due, next, asked?_of_next next]

theorem Exits.paid {program : List Node} {debts : List Debt}
    (exits : Exits machine reports passages last) (running : machine.status = .running)
    (owes : Stack.Owes program false machine.stack debts) : Debt.ArePaidBy debts reports := by
  induction exits generalizing debts with
  | @exit machine ends =>
    obtain ⟨left, owes, pays⟩ := owes.settle Memory.release machine.memory
    cases next : machine.settled.next with
    | some upcoming => exact absurd ends (result_of_next running next)
    | none =>
      have empty : machine.settled.stack = [] := by rw [Settled.stack, next]
      change Stack.Owes program false machine.settled.stack left at owes
      rw [empty] at owes
      cases owes
      exact pays [] (Debt.ArePaidBy.of_over rfl)
  | @next machine last info reports passages goes further ih =>
    obtain ⟨-, running', activity, node, rest, left, next, rfl, proceeds, stacked⟩ :=
      step_of_continues goes
    obtain ⟨between, owes, pays⟩ := owes.settle Memory.release machine.memory
    change Stack.Owes program false machine.settled.stack between at owes
    rw [Settled.stack, next] at owes
    have current := Memory.settleWith_current Memory.release machine.memory machine.stack next
    obtain ⟨later, owes, pays'⟩ := owes.proceed current rfl proceeds
    rw [report_of_next running next]
    exact pays _ (pays' reports (ih running' (stacked ▸ owes)))

theorem Exits.executed (exits : Exits machine reports passages last)
    (running : machine.status = .running) :
    last.executed = machine.executed + Report.counts reports := by
  induction exits with
  | @exit machine ends =>
    cases next : machine.settled.next with
    | some upcoming => exact absurd ends (result_of_next running next)
    | none =>
      rw [executed_step running, due, next]
      rfl
  | @next machine last info reports passages goes further ih =>
    obtain ⟨-, running', -⟩ := step_of_continues goes
    have grows := machine.executed_step_ge
    rw [ih running', Report.counts]
    simp only [report]
    omega

theorem Exits.asked (exits : Exits machine reports passages last) (running : machine.status = .running) :
    (reports.countP fun report => report.asked.isSome) = passages.countP Passage.isCall := by
  have quiet : ∀ machine : Machine σ, machine.settled.passages.countP Passage.isCall = 0 := fun machine =>
    Memory.settleWith_calls Memory.release machine.memory machine.stack
  induction exits with
  | @exit machine ends =>
    cases next : machine.settled.next with
    | some upcoming => exact absurd ends (result_of_next running next)
    | none => simp [Machine.passages, flow?, next, quiet machine]
  | @next machine last info reports passages goes further ih =>
    obtain ⟨-, running', activity, node, rest, left, next, -⟩ := step_of_continues goes
    have flow : machine.flow? = some (machine.attempt machine.settled.memory activity node).1 := by
      simp [flow?, next]
    have own : machine.passages.countP Passage.isCall = if machine.asked?.isSome then 1 else 0 := by
      rw [asked?_of_next next, Machine.passages, flow, List.countP_append, quiet machine]
      generalize (machine.attempt machine.settled.memory activity node).1 = flow
      rcases flow with (fault | ⟨closure, arguments⟩) | (_ | inner | value) <;> rfl
    rw [List.countP_cons, List.countP_append, ih running', own, Nat.add_comm]
    rfl

theorem Exits.passes {program : List Node} {segments : List Segment}
    (exits : Exits machine reports passages last) (running : machine.status = .running)
    (shape : Segment.Shape σ program none segments) (stacked : machine.stack = Stack.join segments) :
    Segment.Passes σ segments passages [.active none Arena.global []] := by
  induction exits generalizing segments with
  | @exit machine ends =>
    have goes := advances shape stacked running
    rw [Advances, ends] at goes
    exact goes.2
  | @next machine last info reports passages goes further ih =>
    have advances := advances shape stacked running
    rw [Advances, goes] at advances
    obtain ⟨running', later, stacked', shape', passes⟩ := advances
    exact passes.append (ih running' shape' stacked')

/-- When a program has been stepped to its end, the reports of its steps are those of executions of statements of
the program, one after the other. If a statement of them, or of the body of a call, made some calls, there are one
more reports of it than calls. They all say the same, and the first alone counted a statement. Before each call
returned, statements of its body were executed in the same way, and nothing else was reported in the meantime. So
there were as many such steps as statements were counted and calls of functions of the program were made, and each
of these calls was asked for, entered and left once. -/
theorem Exits.accounts {program : Block} {globals : Globals σ} {host : σ} {fresh : Machine σ}
    {kinds : List EventKind} (ready : ofProgram program globals host = .ok fresh)
    (exits : Exits (fresh.load kinds).1 reports passages last) :
    ∃ course : List Execution, Execution.AreOf program.statements course ∧
      reports = Execution.course course ∧
      last.executed = Execution.sizes course ∧
      passages.countP Passage.isCall = Execution.callsOf course ∧
      passages.countP Passage.isEntry = Execution.callsOf course ∧
      passages.countP Passage.isReturn = Execution.callsOf course ∧
      reports.length = last.executed + passages.countP Passage.isEntry := by
  obtain ⟨begins, shape⟩ := begins_of_ofProgram ready
  have start : fresh.status = .running ∧ fresh.executed = 0 := by
    unfold ofProgram at ready
    obtain ⟨⟨memory, hosts⟩, -, made⟩ := except_bind_ok ready
    cases made
    exact ⟨rfl, rfl⟩
  have owes : Stack.Owes program.statements false fresh.stack
      [⟨none, program.statements⟩] := by
    rw [begins]
    refine .inner (by simp [Activity.block]) ⟨fun node inside => ?_, Replay.sound_fresh⟩ rfl .done
    rcases List.mem_append.1 inside with inside | impossible
    · exact .here inside
    · cases impossible
  obtain ⟨own, rest, rfl, ⟨course, proper, rfl⟩, rfl⟩ := exits.paid start.1 owes
  rw [List.append_nil] at exits ⊢
  have tally := Execution.tally_course course
  have counted := exits.executed start.1
  have asked := exits.asked start.1
  obtain ⟨entered, returned⟩ := (exits.passes start.1 shape begins).tally
  have executed : last.executed = Execution.sizes course := by
    rw [counted, tally.counted_eq]
    exact (congrArg (· + _) start.2).trans (Nat.zero_add _)
  have calls : passages.countP Passage.isCall = Execution.callsOf course := by
    rw [← asked, tally.asked_eq]
  -- no call is active at the start, and none at the end
  have entries : 0 + passages.countP Passage.isCall = 0 + passages.countP Passage.isEntry := entered
  have returns : 0 + passages.countP Passage.isCall = 0 + passages.countP Passage.isReturn := returned
  rw [calls] at entries returns
  have entries := (Nat.add_left_cancel entries).symm
  refine ⟨course, proper, rfl, executed, calls, entries, (Nat.add_left_cancel returns).symm, ?_⟩
  rw [tally.length_eq, executed, entries]

/-- A function that does nothing, and its call, are three statements and four steps. -/
theorem Exits.accounts_calling :
    ∃ (fresh last : Machine Unit) (reports : List Report) (passages : List Passage),
      ofProgram calling [] () = .ok fresh ∧ Exits (fresh.load []).1 reports passages last ∧
      reports.map Report.info = [⟨.definition, default⟩, ⟨.call, default⟩, ⟨.pass, default⟩,
        ⟨.call, default⟩] ∧
      reports.length = last.executed + passages.countP Passage.isEntry ∧ last.executed = 3 ∧
      passages.countP Passage.isEntry = 1 := by
  have runs : (ofProgram calling ([] : Globals Unit) ()).toOption.map (fun fresh =>
      let first := (fresh.load []).1
      let second := first.step.machine
      let third := second.step.machine
      let fourth := third.step.machine
      let fifth := fourth.step.machine
      ([first, second, third, fourth, fifth].map fun machine => machine.step.result.toOption,
        fifth.step.machine.executed)) =
      some ([some (some ⟨.definition, default⟩), some (some ⟨.call, default⟩), some (some ⟨.pass, default⟩),
        some (some ⟨.call, default⟩), some none], 3) := by
    decide +kernel
  obtain ⟨fresh, made, facts⟩ := Option.map_eq_some_iff.1 runs
  simp only [Prod.mk.injEq, List.map_cons, List.map_nil, List.cons.injEq] at facts
  obtain ⟨⟨first, second, third, fourth, fifth, -⟩, counted⟩ := facts
  have exits := Exits.next (except_of_toOption first) <| .next (except_of_toOption second) <|
    .next (except_of_toOption third) <| .next (except_of_toOption fourth) <|
    .exit (except_of_toOption fifth)
  obtain ⟨course, -, -, -, -, -, -, total⟩ := exits.accounts (except_of_toOption made)
  refine ⟨fresh, _, _, _, except_of_toOption made, exits, rfl, total, counted, ?_⟩
  rw [counted] at total
  exact (Nat.add_left_cancel (m := 1) total).symm

end Machine

end TabScript
