import TabScript.Proofs.Limits.Rounds

/-! How many statements a run needs.

A run that ends well needs no more than it counts, and with fewer it is cut short when they are spent. With
just as many, everything depends on what is left when the last one is counted. Nothing is, unless that
statement ran inside a call: then a statement waits for the call, and although it was counted before, it is
a statement that is left. -/

set_option autoImplicit false

namespace TabScript.Machine

variable {σ : Type} {machine : Machine σ} {steps most : Nat} {ended : Reaction σ Unit}

/-- A run with a limit is ended for its length, after as many statements as it may run. -/
def CutAt (machine : Machine σ) (most steps : Nat) : Prop :=
  ∃ cut, machine.complete (some most) steps = some cut ∧ cut.TimedOut ∧ cut.machine.executed = most

/-- When so many statements have been counted, one of them still has to go on after a call. -/
def LeavesWaiting (machine : Machine σ) (count : Nat) : Prop :=
  ∃ infos observed after, Rounds (turn · none) machine infos observed after ∧ after.executed = count ∧
    after.status = .running ∧
    ∃ activity node rest, after.settled.next = some (activity, node, rest) ∧
      activity.replay.resumed = true

/-- The first turn of a run without a limit: it goes on, it is the end, or it fails. -/
theorem complete_cases (completed : machine.complete none (steps + 1) = some ended) :
    (∃ info later, machine.step.result = .ok (some info) ∧
      machine.step.machine.complete none steps = some later ∧
      ended = { later with observed := machine.step.observed ++ later.observed }) ∨
    (machine.step.result = .ok none ∧
      ended = ⟨.ok (), machine.step.machine, machine.step.observed⟩) ∨
    (∃ fault, machine.step.result = .error fault ∧
      ended = ⟨.error fault, machine.step.machine, machine.step.observed⟩) := by
  rw [complete, turn_none] at completed
  split at completed
  · rename_i fault result
    cases completed
    exact .inr (.inr ⟨fault, result, rfl⟩)
  · rename_i result
    cases completed
    exact .inr (.inl ⟨result, rfl⟩)
  · rename_i info result
    obtain ⟨later, finished, rfl⟩ := Option.map_eq_some_iff.1 completed
    exact .inl ⟨info, later, result, finished, rfl⟩

/-- Where the limit lets a run go on, the next turn is that of the run without it. -/
theorem complete_within (within : machine.exceeds (some most) = false)
    (completed : machine.complete none (steps + 1) = some ended)
    (further : ∀ info later, machine.step.result = .ok (some info) →
      machine.step.machine.complete none steps = some later → later.machine = ended.machine →
      machine.step.machine.complete (some most) steps = some later) :
    machine.complete (some most) (steps + 1) = some ended := by
  rw [complete, turn_of_within within]
  rcases complete_cases completed with ⟨info, later, goes, finished, rfl⟩ | ⟨result, rfl⟩ |
    ⟨fault, result, rfl⟩
  · simp only [goes, further info later goes finished rfl, Option.map_some]
  · simp only [result]
  · simp only [result]

theorem executed_le_complete (completed : machine.complete none steps = some ended) :
    machine.executed ≤ ended.machine.executed := by
  induction steps generalizing machine ended with
  | zero => cases completed
  | succ steps ih =>
    have grows := machine.executed_step_ge
    rcases complete_cases completed with ⟨info, later, -, finished, rfl⟩ | ⟨-, rfl⟩ | ⟨fault, -, rfl⟩
    · have further := ih finished
      exact Nat.le_trans grows further
    · exact grows
    · exact grows

theorem executed_step_le_complete (completed : machine.complete none (steps + 1) = some ended) :
    machine.step.machine.executed ≤ ended.machine.executed := by
  rcases complete_cases completed with ⟨info, later, -, finished, rfl⟩ | ⟨-, rfl⟩ | ⟨fault, -, rfl⟩
  · have further := executed_le_complete finished
    exact further
  · exact Nat.le_refl _
  · exact Nat.le_refl _

theorem executed_step_le (within : machine.exceeds (some most) = false)
    (counted : machine.executed ≤ most) : machine.step.machine.executed ≤ most := by
  have bounded := executed_turn_le counted
  rw [turn_of_within within] at bounded
  exact bounded

theorem CutAt.of_exceeds (counted : machine.executed ≤ most)
    (beyond : machine.exceeds (some most) = true) : CutAt machine most (steps + 1) := by
  refine ⟨⟨.error ⟨.timeout, machine.upcomingSpan⟩, { machine with status := .halted }, []⟩, ?_, rfl, ?_⟩
  · rw [complete, turn_of_exceeds beyond]
  · obtain ⟨-, reached, -⟩ := exceeds_some.1 beyond
    exact Nat.le_antisymm counted reached

theorem CutAt.next {info : StepInfo} (within : machine.exceeds (some most) = false)
    (goes : machine.step.result = .ok (some info)) (cut : CutAt machine.step.machine most steps) :
    CutAt machine most (steps + 1) := by
  obtain ⟨later, finished, timedOut, counted⟩ := cut
  refine ⟨{ later with observed := machine.step.observed ++ later.observed }, ?_, timedOut, counted⟩
  rw [complete, turn_of_within within]
  simp only [goes, finished, Option.map_some]

theorem LeavesWaiting.next {info : StepInfo} (goes : machine.step.result = .ok (some info))
    (waits : machine.step.machine.LeavesWaiting most) : machine.LeavesWaiting most := by
  obtain ⟨infos, observed, after, rounds, waits⟩ := waits
  exact ⟨info :: infos, _, after, .next goes rounds, waits⟩

/-- What the limit holds back is a statement that goes on after a call if it would not be counted. -/
theorem leavesWaiting_of_exceeds (counted : machine.executed ≤ most)
    (beyond : machine.exceeds (some most) = true) (uncounted : machine.step.machine.executed ≤ most) :
    machine.LeavesWaiting most := by
  obtain ⟨running, reached, more⟩ := exceeds_some.1 beyond
  obtain ⟨⟨activity, node, rest⟩, next⟩ := Option.isSome_iff_exists.1 more
  refine ⟨[], [], machine, .here, Nat.le_antisymm counted reached, running, activity, node, rest, next, ?_⟩
  cases resumed : activity.replay.resumed with
  | true => rfl
  | false =>
    have one := executed_step running
    rw [due, next] at one
    simp only [resumed, Bool.false_eq_true, if_false] at one
    omega

theorem complete_of_lt (completed : machine.complete none steps = some ended)
    (spare : ended.machine.executed < most) : machine.complete (some most) steps = some ended := by
  induction steps generalizing machine ended with
  | zero => cases completed
  | succ steps ih =>
    have within : machine.exceeds (some most) = false := by
      rw [Bool.eq_false_iff]
      intro beyond
      obtain ⟨-, reached, -⟩ := exceeds_some.1 beyond
      have fewer := executed_le_complete completed
      omega
    refine complete_within within completed fun info later _ finished same => ih finished ?_
    rw [same]
    exact spare

theorem cutAt_of_lt (counted : machine.executed ≤ most)
    (completed : machine.complete none steps = some ended) (well : ended.result = .ok ())
    (short : most < ended.machine.executed) : CutAt machine most steps := by
  induction steps generalizing machine ended with
  | zero => cases completed
  | succ steps ih =>
    cases within : machine.exceeds (some most) with
    | true => exact .of_exceeds counted within
    | false =>
      have bounded := executed_step_le within counted
      rcases complete_cases completed with ⟨info, later, goes, finished, rfl⟩ | ⟨-, rfl⟩ |
        ⟨fault, -, rfl⟩
      · exact .next within goes (ih bounded finished well short)
      -- the last turn runs no statement, so its count would have to be past the limit already
      · exact absurd bounded (Nat.not_le.2 short)
      · cases well

theorem complete_of_not_leavesWaiting (counted : machine.executed ≤ most)
    (completed : machine.complete none steps = some ended) (same : ended.machine.executed = most)
    (done : ¬machine.LeavesWaiting most) : machine.complete (some most) steps = some ended := by
  induction steps generalizing machine ended with
  | zero => cases completed
  | succ steps ih =>
    have uncounted := executed_step_le_complete completed
    rw [same] at uncounted
    have within : machine.exceeds (some most) = false := by
      rw [Bool.eq_false_iff]
      intro beyond
      exact done (leavesWaiting_of_exceeds counted beyond uncounted)
    refine complete_within within completed fun info later goes finished ends => ?_
    refine ih uncounted finished ?_ fun waits => done (.next goes waits)
    rw [ends]
    exact same

theorem cutAt_of_leavesWaiting (counted : machine.executed ≤ most)
    (completed : machine.complete none steps = some ended) (well : ended.result = .ok ())
    (waits : machine.LeavesWaiting most) : CutAt machine most steps := by
  obtain ⟨infos, observed, after, rounds, reached, running, activity, node, rest, next, -⟩ := waits
  -- by the rounds up to the statement that is left waiting: the limit is reached there or before
  induction rounds generalizing steps ended with
  | here =>
    cases steps with
    | zero => cases completed
    | succ steps =>
      refine .of_exceeds counted (exceeds_some.2 ⟨running, Nat.le_of_eq reached.symm, ?_⟩)
      rw [next]
      rfl
  | next goes _ ih =>
    cases steps with
    | zero => cases completed
    | succ steps =>
      rename_i machine _ _ _ _ _
      cases within : machine.exceeds (some most) with
      | true => exact .of_exceeds counted within
      | false =>
        rcases complete_cases completed with ⟨info, later, goes', finished, rfl⟩ | ⟨past, -⟩ |
          ⟨fault, past, -⟩
        · exact .next within goes' (ih (executed_step_le within counted) finished well reached running
            next)
        · cases goes.symm.trans past
        · cases goes.symm.trans past

/-- A run of a program that ends well after so many counted statements is the same with any larger limit,
and with any smaller one it is cut short after as many statements as the limit says. With just that limit
it is the same run too, unless a statement is left to go on after a call when the last one has been counted,
and then it is cut short there. -/
theorem complete_limited {program : Block} {globals : Globals σ} {host : σ} {fresh : Machine σ}
    {kinds : List EventKind} (ready : ofProgram program globals host = .ok fresh)
    (completed : (fresh.load kinds).1.complete none steps = some ended)
    (well : ended.result = .ok ()) (most : Nat) :
    (ended.machine.executed < most → (fresh.load kinds).1.complete (some most) steps = some ended) ∧
    (most < ended.machine.executed → (fresh.load kinds).1.CutAt most steps) ∧
    (most = ended.machine.executed →
      (¬(fresh.load kinds).1.LeavesWaiting most →
        (fresh.load kinds).1.complete (some most) steps = some ended) ∧
      ((fresh.load kinds).1.LeavesWaiting most → (fresh.load kinds).1.CutAt most steps)) := by
  have counted : (fresh.load kinds).1.executed ≤ most := by
    unfold ofProgram at ready
    obtain ⟨⟨memory, hosts⟩, -, made⟩ := except_bind_ok ready
    cases made
    exact Nat.zero_le most
  constructor
  · exact complete_of_lt completed
  constructor
  · exact cutAt_of_lt counted completed well
  · intro same
    constructor
    · exact complete_of_not_leavesWaiting counted completed same.symm
    · exact cutAt_of_leavesWaiting counted completed well

theorem result_of_problem? {ended : Reaction σ Unit} (well : ended.problem? = none) :
    ended.result = .ok () := by
  unfold Reaction.problem? at well
  split at well
  · assumption
  · cases well

/-- A function that does nothing, and its call, are three statements. Four are enough, two are not. -/
theorem complete_limited_calling :
    ∃ (machine : Machine Unit) (ended : Reaction Unit Unit), ofProgram calling [] () = .ok machine ∧
      (machine.load []).1.complete none 5 = some ended ∧ ended.result = .ok () ∧
      ended.machine.executed = 3 ∧ (machine.load []).1.complete (some 4) 5 = some ended ∧
      (machine.load []).1.CutAt 2 5 := by
  have runs : ((ofProgram calling ([] : Globals Unit) ()).toOption.bind fun machine =>
      ((machine.load []).1.complete none 5).map fun ended =>
        (ended.problem?, ended.machine.executed)) = some (none, 3) := by
    decide +kernel
  obtain ⟨machine, made, ends⟩ := Option.bind_eq_some_iff.1 runs
  obtain ⟨ended, completed, facts⟩ := Option.map_eq_some_iff.1 ends
  obtain ⟨well, count⟩ := Prod.mk.inj facts
  have ready := except_of_toOption made
  have well := result_of_problem? well
  refine ⟨machine, ended, ready, completed, well, count, ?_, ?_⟩
  · exact (complete_limited ready completed well 4).1 (by omega)
  · exact (complete_limited ready completed well 2).2.1 (by omega)

/-- Three are not enough either: when the body of the function is done the call is counted already, but it
waits for what the function returns. -/
theorem cut_short_waiting :
    ∃ (program : Block) (machine : Machine Unit) (ended cut : Reaction Unit Unit),
      parse "def f():\n\tpass\nf()" = .ok program ∧ ofProgram program [] () = .ok machine ∧
      machine.complete none 5 = some ended ∧ ended.result = .ok () ∧ ended.machine.executed = 3 ∧
      machine.complete (some 3) 5 = some cut ∧ cut.TimedOut := by
  have runs : ((parse "def f():\n\tpass\nf()").toOption.bind fun program =>
      (ofProgram program ([] : Globals Unit) ()).toOption.bind fun machine =>
      (machine.complete none 5).bind fun ended => (machine.complete (some 3) 5).map fun cut =>
        (ended.problem?, ended.machine.executed, cut.problem?)) =
      some (none, 3, some .executionTimeout) := by
    decide +kernel
  obtain ⟨program, parsed, made⟩ := Option.bind_eq_some_iff.1 runs
  obtain ⟨machine, ready, ends⟩ := Option.bind_eq_some_iff.1 made
  obtain ⟨ended, completed, cuts⟩ := Option.bind_eq_some_iff.1 ends
  obtain ⟨cut, limited, facts⟩ := Option.map_eq_some_iff.1 cuts
  obtain ⟨well, facts⟩ := Prod.mk.inj facts
  obtain ⟨count, timedOut⟩ := Prod.mk.inj facts
  exact ⟨program, machine, ended, cut, except_of_toOption parsed, except_of_toOption ready, completed,
    result_of_problem? well, count, limited, timedOut⟩

end TabScript.Machine
