import TabScript.Proofs.Replay.Grown
import TabScript.Proofs.Replay.Order

/-! Evaluation goes by what the memory of its statement knows.

Whatever is known of some expressions, their evaluation grows the track of them, and leaves the slots of the grown track
in the memory. If it is left at a call, the answer will make that expression a finished one. -/

set_option autoImplicit false

namespace TabScript

variable {σ : Type}

namespace Evaluation

open Track

section
variable (surroundings : Surroundings σ)

/-- The evaluation stands at a call on this path: it has the values of all its parts, and the function is one of the
program. -/
def Waits (goesOn : Value → Bool) (nodes : List Node) (before : Progress σ) (path : List Nat) (slot : Nat)
    (closure : Closure) (arguments : List Value) : Prop :=
  ∃ span callee operands here opened between,
    Comes surroundings goesOn nodes before path (.call span callee operands) here ∧
      here.replay.take = (.fresh slot, opened) ∧
      evalAll surroundings (callee :: operands) (here.world.progress opened) =
        (.ok (.function (.closure closure) :: arguments), between) ∧
      closure.parameters.length = arguments.length

/-- The evaluation was left at a call, with this track in its memory; the answer will go to the slot of the call. -/
def Suspended (goesOn : Value → Bool) (nodes : List Node) (before : Progress σ) (resumed : Bool) (passed : List Slot)
    (grown : Track) (closure : Closure) (arguments : List Value) (replay : Replay) : Prop :=
  ∃ path slot stop cursor,
    replay = ⟨(passed ++ grown.slots passed.length).toArray, cursor, some (slot, stop), resumed⟩ ∧
      Waits surroundings goesOn nodes before path slot closure arguments ∧
      ∀ answer, ∃ answered, Awaits answer passed.length grown path slot stop answered

def Stops (goesOn : Value → Bool) (nodes : List Node) (before : Progress σ) (resumed : Bool) (passed : List Slot)
    (grown : Track) : Except Interrupt (List Value) × Progress σ → Prop
  | (.ok _, after) => grown.Complete ∧ after.replay = .behind (passed ++ grown.slots passed.length) [] resumed
  | (.error (.suspend closure arguments), after) =>
    Suspended surroundings goesOn nodes before resumed passed grown closure arguments after.replay
  | (.error (.fail _), _) => True

def StopsFirst (node : Node) (before : Progress σ) (resumed : Bool) (passed : List Slot) (inner : Track) :
    Except Interrupt Value × Progress σ → Prop
  | (.ok value, after) =>
    inner.Complete ∧ ∃ later : World σ, after = later.facing (passing passed value inner) .untouched resumed
  | (.error (.suspend closure arguments), after) => ∀ goesOn nodes,
    Suspended surroundings goesOn (node :: nodes) before resumed passed (.begun none inner .untouched) closure arguments
      after.replay
  | (.error (.fail _), _) => True

def Runs (goesOn : Value → Bool) (nodes : List Node) : Prop :=
  ∀ (passed : List Slot) (track : Track) (resumed : Bool) (world : World σ), track.Fits goesOn nodes →
    ∃ grown, Grows surroundings resumed goesOn nodes passed world track grown ∧
      Stops surroundings goesOn nodes (world.facing passed track resumed) resumed passed grown
        (evalWhile surroundings goesOn nodes (world.facing passed track resumed))

def RunsFirst (node : Node) : Prop :=
  ∀ (passed : List Slot) (track parts : Track) (resumed : Bool) (world : World σ), Unfinished track parts →
    parts.Fits (fun _ => true) node.parts →
    ∃ inner, Grows surroundings resumed (fun _ => true) node.parts (passed ++ [none]) world parts inner ∧
      StopsFirst surroundings node (world.facing passed track resumed) resumed passed inner
        (eval surroundings node (world.facing passed track resumed))

end

variable {surroundings : Surroundings σ} {resumed : Bool} {goesOn : Value → Bool} {node : Node}
  {nodes : List Node} {passed : List Slot} {world : World σ} {track parts inner grown : Track} {path : List Nat}
  {before between : Progress σ} {value : Value} {slot : Nat} {closure : Closure} {arguments : List Value}

theorem Waits.later (found : eval surroundings node before = (.ok value, between))
    (waits : Waits surroundings goesOn (onward goesOn value nodes) between path slot closure arguments) :
    ∃ index rest, path = index :: rest ∧
      Waits surroundings goesOn (node :: nodes) before ((index + 1) :: rest) slot closure arguments := by
  obtain ⟨span, callee, operands, here, opened, after, comes, taken, given, fits⟩ := waits
  cases path with
  | nil => exact absurd rfl comes.not_nil
  | cons index rest =>
    exact ⟨index, rest, rfl, span, callee, operands, here, opened, after, .later found comes.on.1 comes.on.2, taken,
      given, fits⟩

theorem Waits.inside (unfinished : Unfinished track parts)
    (waits : Waits surroundings (fun _ => true) node.parts (world.facing (passed ++ [none]) parts resumed) path slot
      closure arguments) :
    (∃ index rest, path = index :: rest) ∧ ∀ goesOn nodes,
      Waits surroundings goesOn (node :: nodes) (world.facing passed track resumed) (0 :: path) slot closure
        arguments := by
  obtain ⟨span, callee, operands, here, opened, after, comes, taken, given, fits⟩ := waits
  refine ⟨List.exists_cons_of_ne_nil comes.not_nil, fun goesOn nodes => ?_⟩
  exact ⟨span, callee, operands, here, opened, after, comes.inside_facing unfinished goesOn nodes, taken, given, fits⟩

theorem passing_append (passed : List Slot) (value : Value) (parts grown : Track) :
    passing passed value parts ++ grown.slots (passing passed value parts).length =
      passed ++ (begun (some value) parts grown).slots passed.length := by
  rw [length_passing, passing, slots, slots, slots, List.append_nil, List.append_assoc, List.cons_append]

theorem Stops.later (found : eval surroundings node before = (.ok value, between)) (complete : parts.Complete)
    {result : Except Interrupt (List Value) × Progress σ}
    (ended : Stops surroundings goesOn (onward goesOn value nodes) between resumed (passing passed value parts) grown
      result) :
    Stops surroundings goesOn (node :: nodes) before resumed passed (begun (some value) parts grown)
      (andThen result fun values => pure (value :: values)) := by
  rcases result with ⟨(fault | ⟨closure, arguments⟩) | values, after⟩
  · trivial
  · obtain ⟨path, slot, stop, cursor, same, waits, awaits⟩ := ended
    obtain ⟨index, rest, rfl, stands⟩ := waits.later found
    rw [passing_append] at same
    refine ⟨(index + 1) :: rest, slot, stop, cursor, same, stands, fun answer => ?_⟩
    obtain ⟨answered, filled⟩ := awaits answer
    rw [length_passing] at filled
    exact ⟨_, .later filled⟩
  · obtain ⟨others, same⟩ := ended
    rw [passing_append] at same
    exact ⟨⟨rfl, complete, others⟩, same⟩

theorem evalWhile_cons (found : eval surroundings node before = (.ok value, between)) :
    evalWhile surroundings goesOn (node :: nodes) before =
      andThen (evalWhile surroundings goesOn (onward goesOn value nodes) between)
        fun values => pure (value :: values) := by
  rw [evalWhile, bind_apply, found]
  cases on : goesOn value with
  | true =>
    rw [onward, if_pos on]
    change (if goesOn value then _ else _ : Evaluation σ (List Value)) between = _
    rw [if_pos on, bind_apply]
  | false =>
    rw [onward, if_neg (by simp [on]), evalWhile]
    change (if goesOn value then _ else _ : Evaluation σ (List Value)) between = _
    rw [if_neg (by simp [on])]
    rfl

theorem evalWhile_cons_error {interrupt : Interrupt} {after : Progress σ}
    (stopped : eval surroundings node before = (.error interrupt, after)) :
    evalWhile surroundings goesOn (node :: nodes) before = (.error interrupt, after) := by
  rw [evalWhile, bind_apply, stopped]
  rfl

theorem runs_nil : Runs surroundings goesOn [] := by
  intro passed track resumed world fits
  cases track with
  | begun => cases fits
  | untouched =>
    refine ⟨.untouched, .nothing, ?_⟩
    rw [evalWhile]
    exact ⟨trivial, by rw [World.facing, slots, List.append_nil, World.replay_progress]⟩

theorem runs_of_each (each : ∀ node ∈ nodes, RunsFirst surroundings node) : Runs surroundings goesOn nodes := by
  induction nodes with
  | nil => exact runs_nil
  | cons node nodes ih =>
    have rest : ∀ value, Runs surroundings goesOn (onward goesOn value nodes) := by
      intro value
      unfold onward
      split
      · exact ih fun other inside => each other (List.mem_cons_of_mem _ inside)
      · exact runs_nil
    have first := each node List.mem_cons_self
    intro passed track resumed world fits
    -- the first expression has a value already, or it is evaluated now
    have known : (∃ value parts others, track = .begun (some value) parts others) ∨
        ∃ parts, Unfinished track parts ∧ parts.Fits (fun _ => true) node.parts := by
      cases track with
      | untouched => exact .inr ⟨.untouched, .untouched, trivial⟩
      | begun known parts others =>
        cases known with
        | some value => exact .inl ⟨value, parts, others, rfl⟩
        | none =>
          obtain ⟨inside, rfl⟩ := fits
          exact .inr ⟨parts, .left parts, inside⟩
    rcases known with ⟨value, parts, others, rfl⟩ | ⟨parts, unfinished, inside⟩
    · obtain ⟨grown, grows, ended⟩ := rest value (passing passed value parts) others resumed world fits.2
      have found := eval_finished surroundings node world passed value parts others resumed
      refine ⟨_, .replayed fits.1 grows, ?_⟩
      rw [evalWhile_cons found]
      exact ended.later found fits.1
    · obtain ⟨inner, within, ended⟩ := first passed track parts resumed world unfinished inside
      rcases found : eval surroundings node (world.facing passed track resumed) with
        ⟨(fault | ⟨closure, arguments⟩) | value, after⟩ <;> rw [found] at ended
      · refine ⟨_, .left unfinished within found, ?_⟩
        rw [evalWhile_cons_error found]
        trivial
      · refine ⟨_, .left unfinished within found, ?_⟩
        rw [evalWhile_cons_error found]
        exact ended goesOn nodes
      · obtain ⟨complete, later, rfl⟩ := ended
        obtain ⟨grown, grows, ended⟩ := rest value (passing passed value inner) .untouched resumed later trivial
        refine ⟨_, .finished unfinished within complete found grows, ?_⟩
        rw [evalWhile_cons found]
        exact ended.later found complete

theorem runs_of_parts (runs : Runs surroundings (fun _ => true) node.parts) : RunsFirst surroundings node := by
  intro passed track parts resumed world unfinished fits
  obtain ⟨inner, grows, ended⟩ := runs (passed ++ [none]) parts resumed world fits
  refine ⟨inner, grows, ?_⟩
  have taken := unfinished.take passed resumed
  have entered : eval surroundings node (world.facing passed track resumed) = noted passed.length
      ((evalAll surroundings node.parts >>= combine surroundings node)
        (world.facing (passed ++ [none]) parts resumed)) := by
    rw [eval_parts]
    exact remember_of_fresh taken
  rw [entered, bind_apply, evalAll_eq_evalWhile]
  rcases reached : evalWhile surroundings (fun _ => true) node.parts (world.facing (passed ++ [none]) parts resumed) with
    ⟨(fault | ⟨closure, arguments⟩) | values, between⟩ <;> rw [reached] at ended
  · trivial
  · -- left inside of a part
    obtain ⟨path, slot, stop, cursor, same, waits, awaits⟩ := ended
    obtain ⟨⟨index, rest, rfl⟩, waits⟩ := waits.inside unfinished
    rw [List.length_append, List.length_singleton] at same awaits
    refine fun goesOn nodes => ⟨0 :: index :: rest, slot, stop, cursor, ?_, waits goesOn nodes, fun answer => ?_⟩
    · simp [same, slots, Replay.suspend]
    · obtain ⟨answered, filled⟩ := awaits answer
      exact ⟨_, .inside filled⟩
  · obtain ⟨complete, same⟩ := ended
    have kept := (detached_combine surroundings node values).replay_eq between
    rw [same, List.length_append, List.length_singleton] at kept
    rcases combined : combine surroundings node values between with
      ⟨(fault | ⟨closure, arguments⟩) | value, after⟩ <;> rw [combined] at kept <;> dsimp only at kept
    · simp only [andThen, combined]
      trivial
    · -- the parts have their values, and the expression itself is the call
      obtain ⟨⟨span, callee, operands, rfl⟩, rfl, fits⟩ := combine_suspends (congrArg Prod.fst combined)
      rw [← evalAll_eq_evalWhile] at reached
      simp only [andThen, combined, noted]
      refine fun goesOn nodes => ⟨[0], passed.length, passed.length + 1 + inner.size, passed.length + 1 + inner.size,
        ?_, ⟨span, callee, operands, _, _, between, .first, taken, reached, fits⟩, fun answer => ⟨_, .call complete⟩⟩
      simp [kept, slots, Replay.suspend, Replay.behind]
      omega
    · simp only [andThen, combined, noted]
      refine ⟨complete, after.world, ?_⟩
      have filled := Replay.fill_behind passed (inner.slots (passed.length + 1)) resumed value
      rw [← kept, length_slots] at filled
      simp only [World.facing, World.progress, Progress.world, filled, passing, slots, List.append_nil, Option.map_some]

theorem runs_first (surroundings : Surroundings σ) (node : Node) : RunsFirst surroundings node :=
  runs_of_parts (runs_of_each fun part _ => runs_first surroundings part)
termination_by sizeOf node
decreasing_by exact Node.smaller_of_parts (by assumption)

theorem runs (surroundings : Surroundings σ) (goesOn : Value → Bool) (nodes : List Node) :
    Runs surroundings goesOn nodes :=
  runs_of_each fun node _ => runs_first surroundings node

theorem Asks.suspended {α : Type} {part : Evaluation σ α} {after : Progress σ}
    (asks : Asks surroundings goesOn nodes part) (left : part before = (.error (.suspend closure arguments), after)) :
    evalWhile surroundings goesOn nodes before = (.error (.suspend closure arguments), after) := by
  obtain ⟨finish, steady, rfl⟩ := asks
  rw [bind_apply] at left
  rcases reached : evalWhile surroundings goesOn nodes before with ⟨interrupt | values, between⟩ <;>
    rw [reached] at left
  · cases left
    rfl
  · exact absurd (congrArg Prod.fst left) ((steady values).settled _ _ _)

end Evaluation

end TabScript
