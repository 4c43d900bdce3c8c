import TabScript.CommandLine
import TabScript.Proofs.Limits.Rounds

/-! The same run by different loops, with a limit and without one.

A program is run in one go, or by a loop that names every statement and looks at the limit itself. Both
take the same turns. With a limit, the turns are the first ones of the run without it. -/

set_option autoImplicit false

namespace TabScript

variable {σ : Type}

namespace CommandLine

/-- A round of the loop that names statements is a turn. Where the limit is met, one turn of the run is all
that is left of it. -/
theorem namedTurn_eq (machine : Machine σ) (limit : Option Nat) :
    namedTurn machine limit = machine.turn limit := by
  unfold namedTurn
  split
  · rename_i beyond
    simp only [Machine.complete, Machine.turn_of_exceeds beyond]
    rfl
  · rename_i within
    rw [Machine.turn_of_within (Bool.eq_false_iff.2 within)]

theorem nameAll_complete (machine : Machine σ) (limit : Option Nat) (rounds : Nat) :
    (nameAll machine limit rounds).map Prod.fst = machine.complete limit rounds := by
  induction rounds generalizing machine with
  | zero => rfl
  | succ rounds ih =>
    rw [nameAll, Machine.complete, namedTurn_eq]
    cases result : (machine.turn limit).result with
    | error fault => simp only [Option.map_some]
    | ok info =>
      cases info with
      | none => simp only [Option.map_some]
      | some info =>
        simp only [← ih, Option.map_map]
        rfl

theorem nameSource_runSource (source : String) (globals : Globals σ) (hooks : List EventKind) (host : σ)
    (limit : Option Nat) (rounds : Nat) :
    (nameSource source globals hooks host limit rounds).map Prod.fst =
      Machine.runSource source globals hooks host limit rounds := by
  unfold nameSource Machine.runSource
  cases Machine.inspect source globals hooks host with
  | error fault => rfl
  | ok ready =>
    simp only [← nameAll_complete, Option.map_map]
    rfl

end CommandLine

namespace Machine

/-- A run that was ended for its length. As many statements as it may run are counted, nobody heard of an
end, and the rounds up to there, with all that was observed in them, are rounds of the run without a limit,
in which the same names can be seen at that point. -/
structure CutShort (start : Machine σ) (loaded : List Observation) (limit : Option Nat)
    (ended : Reaction σ Unit) : Prop where
  counted : limit = some ended.machine.executed
  amid : Observation.Amid (loaded ++ ended.observed)
  reached : ∃ infos after, Rounds (turn · none) start infos ended.observed after ∧
    ended.machine.executed = after.executed ∧ ended.machine.scope = after.scope

variable {machine : Machine σ} {limit : Option Nat}

theorem inspect_fresh {source : String} {globals : Globals σ} {hooks : List EventKind} {host : σ}
    {loaded : List Observation} (ready : inspect source globals hooks host = .ok (machine, loaded)) :
    machine.executed = 0 ∧ Observation.Amid loaded := by
  unfold inspect at ready
  obtain ⟨program, -, ready⟩ := except_bind_ok ready
  obtain ⟨fresh, made, ready⟩ := except_bind_ok ready
  cases ready
  unfold ofProgram at made
  obtain ⟨⟨memory, hosts⟩, -, made⟩ := except_bind_ok made
  cases made
  exact ⟨rfl, Observation.amid_deliver (by simp [Event.kind]) _⟩

theorem executed_complete_le {most steps : Nat} {ended : Reaction σ Unit} (counted : machine.executed ≤ most)
    (completed : machine.complete (some most) steps = some ended) : ended.machine.executed ≤ most := by
  obtain ⟨infos, observed, last, rounds, rfl⟩ := rounds_of_complete completed
  exact executed_turn_le (rounds.executed_le counted)

theorem cutShort_of_timedOut {loaded : List Observation} {steps : Nat} {ended : Reaction σ Unit}
    (counted : machine.executed = 0) (quiet : Observation.Amid loaded)
    (completed : machine.complete limit steps = some ended) (timedOut : ended.TimedOut) :
    CutShort machine loaded limit ended := by
  obtain ⟨infos, observed, last, rounds, rfl⟩ := rounds_of_complete completed
  have beyond : last.exceeds limit = true := by
    cases fails : (last.turn limit).result with
    | ok value =>
      simp only [Reaction.TimedOut, fails] at timedOut
      cases timedOut
    | error fault =>
      simp only [Reaction.TimedOut, fails] at timedOut
      exact exceeds_of_timeout fails (Cause.kind_eq_timeout.1 (Option.some.inj timedOut))
  rw [turn_of_exceeds beyond, List.append_nil]
  cases limit with
  | none => cases beyond
  | some most =>
    have upper := rounds.executed_le (counted ▸ Nat.zero_le most)
    obtain ⟨-, lower, -⟩ := exceeds_some.1 beyond
    exact ⟨congrArg some (Nat.le_antisymm lower upper), quiet.append rounds.amid,
      infos, last, rounds.unlimited, rfl, rfl⟩

/-- A program is the same run for both loops: they end in the same way after the same number of rounds,
and what is observed is the same. With a limit the rounds are rounds of the run without it, and never are
more statements counted. A run is either cut short by its limit, or it ends as the run without a limit
does. -/
theorem drivers_agree (source : String) (globals : Globals σ) (hooks : List EventKind) (host : σ)
    (limit : Option Nat) :
    (∀ rounds, (CommandLine.nameSource source globals hooks host limit rounds).map Prod.fst =
      runSource source globals hooks host limit rounds) ∧
    ∀ machine loaded, inspect source globals hooks host = .ok (machine, loaded) →
      (∀ infos observed after,
        Rounds (CommandLine.namedTurn · limit) machine infos observed after ↔
          Rounds (turn · limit) machine infos observed after) ∧
      (∀ infos observed after, Rounds (turn · limit) machine infos observed after →
        Rounds (turn · none) machine infos observed after ∧
          ∀ most, limit = some most → after.executed ≤ most) ∧
      ∀ steps ended, machine.complete limit steps = some ended →
        (∀ most, limit = some most → ended.machine.executed ≤ most) ∧
        (ended.TimedOut → CutShort machine loaded limit ended) ∧
        (¬ended.TimedOut → machine.complete none steps = some ended) := by
  refine ⟨CommandLine.nameSource_runSource source globals hooks host limit,
    fun machine loaded ready => ?_⟩
  obtain ⟨counted, quiet⟩ := inspect_fresh ready
  refine ⟨fun infos observed after => ?_, fun infos observed after rounds => ?_,
    fun steps ended completed => ⟨?_, ?_, ?_⟩⟩
  · have same : (CommandLine.namedTurn · limit) = fun machine : Machine σ => machine.turn limit :=
      funext fun machine => CommandLine.namedTurn_eq machine limit
    rw [same]
  · refine ⟨rounds.unlimited, ?_⟩
    rintro most rfl
    exact rounds.executed_le (counted ▸ Nat.zero_le most)
  · rintro most rfl
    exact executed_complete_le (counted ▸ Nat.zero_le most) completed
  · exact cutShort_of_timedOut counted quiet completed
  · exact complete_unlimited completed

/-- A loop without an end is cut short after as many statements as were allowed. -/
theorem drivers_agree_endless :
    ∃ (machine : Machine Unit) (loaded : List Observation) (ended : Reaction Unit Unit),
      inspect "while True:\n\tpass" [] [.exit] () = .ok (machine, loaded) ∧
      machine.complete (some 3) 4 = some ended ∧ ended.TimedOut ∧
      CutShort machine loaded (some 3) ended := by
  have runs : ((inspect "while True:\n\tpass" ([] : Globals Unit) [.exit] ()).toOption.bind fun ready =>
      (ready.1.complete (some 3) 4).bind Reaction.problem?) = some .executionTimeout := by
    decide +kernel
  obtain ⟨⟨machine, loaded⟩, inspected, completes⟩ := Option.bind_eq_some_iff.1 runs
  obtain ⟨ended, completed, timedOut⟩ := Option.bind_eq_some_iff.1 completes
  have ready := except_of_toOption inspected
  obtain ⟨-, agree⟩ :=
    drivers_agree "while True:\n\tpass" ([] : Globals Unit) [.exit] () (some 3)
  obtain ⟨-, -, ends⟩ := agree machine loaded ready
  exact ⟨machine, loaded, ended, ready, completed, timedOut,
    (ends 4 ended completed).2.1 timedOut⟩

end Machine

end TabScript
