import TabScript.Proofs.Limits.Boundary

/-! The stack tells what the next step will do.

Whether a program is finished, and where its next statement stands, is read off the stack as it is. A step
first enters calls, lets calls return and goes back to the heads of loops until it finds a statement. It finds
the one that was told. -/

set_option autoImplicit false

namespace TabScript.Machine

variable {σ : Type} {machine : Machine σ}

/-- The program has come to its end. Each hook that asked for it hears so once and with what is left of the
program, and nothing else is heard. -/
def Ends (reaction : Reaction σ (Option StepInfo)) (hooks : List EventKind) : Prop :=
  reaction.result = .ok none ∧ reaction.machine.status = .exited ∧ reaction.machine.stack = [] ∧
    (Event.exit (reaction.machine.memory.scopes.snapshot reaction.machine.memory.heap
      Arena.global)).Told hooks reaction.observed

theorem ends_of_settled (running : machine.status = .running) (done : machine.settled.next = none) :
    Ends machine.step machine.hooks := by
  rw [step_eq running, done]
  exact ⟨rfl, rfl, rfl, Event.told_deliver _ _⟩

/-- A step that finds a statement tells which one it was, unless it fails. -/
theorem result_of_settled (running : machine.status = .running) {activity : Activity} {node : Node}
    {rest : Stack} (next : machine.settled.next = some (activity, node, rest)) :
    machine.step.result = .ok (some ⟨node.tag, node.span⟩) ∨
      ∃ fault, machine.step.result = .error fault := by
  rw [step_of_next running next]
  dsimp only
  split
  · exact .inl rfl
  · exact .inr ⟨_, rfl⟩

/-- In front of a statement, its place is what a timeout would point at. -/
theorem upcomingSpan_of_settled {activity : Activity} {node : Node} {rest : Stack}
    (next : machine.settled.next = some (activity, node, rest)) :
    machine.stack.findSome? Continuation.upcoming? = some node ∧ machine.upcomingSpan = node.span := by
  have leads : machine.stack.findSome? Continuation.upcoming? = some node := by
    rw [← settled_upcoming, next]
    rfl
  refine ⟨leads, ?_⟩
  rw [upcomingSpan, leads]
  rfl

/-- While a program runs, whatever its memory and its stack are, it is finished just when the next step is its
end and says so to the hooks, and then no limit stops it. As long as it is not finished, the next step runs the
first statement that the stack leads to, from the top. A limit that has been reached points at the same
statement, and so does the report of the step if the statement does not fail. -/
theorem step_foretold (running : machine.status = .running) :
    (machine.isFinished = true ↔ Ends machine.step machine.hooks) ∧
    (machine.isFinished = true ↔ machine.step.result = .ok none) ∧
    (machine.isFinished = true → ∀ limit, machine.turn limit = machine.step) ∧
    (machine.isFinished = false →
      ∃ memory activity node rest,
        machine.memory.settle machine.stack = (memory, some (activity, node, rest)) ∧
        machine.step = { machine with memory := .initial, stack := [] }.run memory activity node rest ∧
        machine.stack.findSome? Continuation.upcoming? = some node ∧
        machine.upcomingSpan = node.span ∧
        (∀ limit ≤ machine.executed,
          (machine.turn (some limit)).result = .error ⟨.timeout, node.span⟩) ∧
        (machine.step.result = .ok (some ⟨node.tag, node.span⟩) ∨
          ∃ fault, machine.step.result = .error fault)) := by
  have finished := isFinished_of_running running
  -- what settling finds decides whether the run is finished, and is the statement that a limit points at
  cases next : machine.settled.next with
  | none =>
    rw [next] at finished
    have ends := ends_of_settled running next
    refine ⟨iff_of_true finished ends, iff_of_true finished ends.1, fun _ limit => ?_, fun more => ?_⟩
    · apply turn_of_within
      cases limit with
      | none => rfl
      | some most => simp [exceeds, finished]
    · rw [more] at finished
      cases finished
  | some upcoming =>
    obtain ⟨activity, node, rest⟩ := upcoming
    have more : machine.isFinished = false := by rw [finished, next]; rfl
    have goes := result_of_settled running next
    have unended : machine.step.result ≠ .ok none := by
      intro ended
      rw [ended] at goes
      rcases goes with goes | ⟨fault, fails⟩
      · cases goes
      · cases fails
    refine ⟨?_, ?_, ?_, fun _ => ?_⟩
    · rw [more]
      exact iff_of_false Bool.false_ne_true fun ends => unended ends.1
    · rw [more]
      exact iff_of_false Bool.false_ne_true unended
    · rw [more]
      exact fun impossible => absurd impossible Bool.false_ne_true
    · obtain ⟨leads, stands⟩ := upcomingSpan_of_settled next
      refine ⟨machine.settled.memory, activity, node, rest, ?_, ?_, leads, stands, ?_, goes⟩
      · rw [Memory.settle, ← next]
        rfl
      · rw [step_eq running, next]
      · intro limit reached
        have beyond : machine.exceeds (some limit) = true :=
          exceeds_some.2 ⟨running, reached, by rw [next]; rfl⟩
        rw [turn_of_exceeds beyond, stands]

/-- When the body of a function is done, the next step goes on with the call, and this is where a limit
would stop the program. The step behind it is the end of the program, and a hook hears so. -/
theorem step_foretold_waiting :
    ∃ (program : Block) (machine waiting : Machine Unit) (node : Node),
      parse "def f():\n\tpass\nf()" = .ok program ∧ ofProgram program [] () = .ok machine ∧
      waiting = ((((machine.on .exit).turn none).machine.turn none).machine.turn none).machine ∧
      waiting.status = .running ∧ waiting.isFinished = false ∧
      node.span = ⟨⟨3, 0⟩, ⟨3, 3⟩⟩ ∧ waiting.upcomingSpan = node.span ∧
      (waiting.turn (some 3)).result = .error ⟨.timeout, node.span⟩ ∧
      waiting.step.result = .ok (some ⟨node.tag, node.span⟩) ∧
      waiting.step.machine.isFinished = true ∧
      Observation.heardBy 0 waiting.step.machine.step.observed =
        [.exit waiting.step.machine.step.machine.scope] := by
  have runs : ((parse "def f():\n\tpass\nf()").toOption.bind fun program =>
      (ofProgram program ([] : Globals Unit) ()).toOption.map fun machine =>
        let waiting := ((((machine.on .exit).turn none).machine.turn none).machine.turn none).machine
        let last := waiting.step.machine
        (waiting.status, waiting.isFinished, waiting.executed, waiting.upcomingSpan,
          waiting.step.result.toOption.isSome,
          decide (last.status = .running ∧ last.isFinished = true ∧ last.hooks[0]? = some .exit))) =
      some (.running, false, 3, ⟨⟨3, 0⟩, ⟨3, 3⟩⟩, true, true) := by
    decide +kernel
  obtain ⟨program, parsed, made⟩ := Option.bind_eq_some_iff.1 runs
  obtain ⟨machine, ready, facts⟩ := Option.map_eq_some_iff.1 made
  simp only [Prod.mk.injEq] at facts
  obtain ⟨running, more, counted, stands, goes, last⟩ := facts
  obtain ⟨running', finished, asked⟩ := of_decide_eq_true last
  obtain ⟨-, -, -, foretold⟩ := step_foretold running
  obtain ⟨memory, activity, node, rest, -, -, -, upcoming, late, reported⟩ := foretold more
  obtain ⟨-, -, empty, told⟩ := (step_foretold running').1.1 finished
  refine ⟨program, machine, _, node, except_of_toOption parsed, except_of_toOption ready, rfl, running,
    more, upcoming.symm.trans stands, upcoming, late 3 (Nat.le_of_eq counted.symm), ?_, finished, ?_⟩
  · rcases reported with reported | ⟨fault, fails⟩
    · exact reported
    · rw [fails] at goes
      cases goes
  · rw [told.heard 0 asked, scope, empty]
    rfl

end TabScript.Machine
