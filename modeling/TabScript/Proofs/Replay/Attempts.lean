import TabScript.Proofs.Replay.Tracked

/-! Attempts at a statement, one after the other.

Every attempt is left at a call; then anything may happen to the world, and the next one begins with the answer. What
an earlier attempt finished is not evaluated again but answered from its slot, what the last one left takes its slot
again, and only what no attempt came to takes slots at the end. -/

set_option autoImplicit false

namespace TabScript

variable {σ : Type}

/-- An attempt at a statement: where it runs, and the state that it starts from. -/
structure Attempt (σ : Type) where
  surroundings : Surroundings σ
  start : Progress σ

namespace Attempt

section
variable (statement : Node) (attempt : Attempt σ)

def Comes (path : List Nat) (part : Node) (here : Progress σ) : Prop :=
  Evaluation.Comes attempt.surroundings statement.goesOn statement.asked attempt.start path part here

def Finishes (path : List Nat) (slot : Nat) (value : Value) : Prop :=
  ∃ part here after, attempt.Comes statement path part here ∧ here.replay.cursor = slot ∧
    Evaluation.eval attempt.surroundings part here = (.ok value, after)

def Begins (path : List Nat) (slot : Nat) : Prop :=
  ∃ part here opened, attempt.Comes statement path part here ∧ here.replay.take = (.fresh slot, opened)

/-- The attempt begins the evaluation of the part, in this slot, and is left inside it. -/
def Leaves (path : List Nat) (slot : Nat) : Prop :=
  ∃ part here opened closure arguments after, attempt.Comes statement path part here ∧
    here.replay.take = (.fresh slot, opened) ∧
    Evaluation.eval attempt.surroundings part here = (.error (.suspend closure arguments), after)

/-- The attempt has the values of all parts of a call, and waits for the function to run. -/
def Waits (path : List Nat) (slot : Nat) (closure : Closure) (arguments : List Value) : Prop :=
  Evaluation.Waits attempt.surroundings statement.goesOn statement.asked attempt.start path slot closure arguments

/-- The attempt has the value of the part from this slot. Nothing is evaluated for it: it would be the same anywhere
and in every world, and leaves the world alone; and the attempt comes to nothing inside the part. -/
structure Answers (path : List Nat) (slot : Nat) (value : Value) : Prop where
  replayed : ∃ part here later, attempt.Comes statement path part here ∧ here.replay.cursor = slot ∧
    here.replay.take = (.replayed value, later) ∧ ∀ surroundings (world : World σ),
      Evaluation.eval surroundings part (world.progress here.replay) = (.ok value, world.progress later)
  skips : ∀ more part here, more ≠ [] → ¬attempt.Comes statement (path ++ more) part here

end

end Attempt

/-- Attempts at a statement, the last one first, and what its memory holds for the next one. Where they run and what
becomes of the world between them is up to anybody, and so are the answers. -/
inductive Attempted (statement : Node) : List (Attempt σ) → Replay → Prop where
  | none : Attempted statement [] .fresh
  | again {attempts : List (Attempt σ)} {replay : Replay} (earlier : Attempted statement attempts replay)
    {surroundings : Surroundings σ} {world : World σ} {closure : Closure} {arguments : List Value}
    {after : Progress σ}
    (left : Evaluation.exec surroundings statement (world.progress replay.rewind) =
      (.error (.suspend closure arguments), after)) (answer : Value) :
    Attempted statement (⟨surroundings, world.progress replay.rewind⟩ :: attempts) (after.replay.deliver answer)

/-- The track tells what the memory holds and what the attempts did: of just those parts that some attempt came to, the
slot, and the value if some attempt had it. -/
structure Recorded (statement : Node) (attempts : List (Attempt σ)) (replay : Replay) (track : Track) : Prop where
  log : ∃ resumed, replay.rewind = .behind [] (track.slots 0) resumed
  fits : track.Fits statement.goesOn statement.asked
  noted : ∀ attempt ∈ attempts, ∀ path part here, attempt.Comes statement path part here →
    ∃ known, track.find 0 path = some (here.replay.cursor, known) ∧
      ∀ value after, Evaluation.eval attempt.surroundings part here = (.ok value, after) → known = some value
  known : ∀ path, track.find 0 path ≠ none →
    ∃ attempt ∈ attempts, ∃ part here, attempt.Comes statement path part here

namespace Recorded

open Evaluation Track

variable {statement : Node} {attempts : List (Attempt σ)} {replay : Replay} {track : Track}
  {surroundings : Surroundings σ} {world : World σ} {path : List Nat} {slot : Nat} {value : Value}

theorem none (statement : Node) : Recorded statement ([] : List (Attempt σ)) .fresh .untouched where
  log := ⟨false, rfl⟩
  fits := trivial
  noted attempt inside := by cases inside
  known path found := by exact absurd rfl found

/-- The next attempt grows the track. If it is left, it is left with the slots of the grown track. -/
theorem grows (recorded : Recorded statement attempts replay track) (surroundings : Surroundings σ) (world : World σ) :
    ∃ resumed grown, world.progress replay.rewind = world.facing [] track resumed ∧
      Grows surroundings resumed statement.goesOn statement.asked [] world track grown ∧
      ∀ closure arguments after,
        exec surroundings statement (world.progress replay.rewind) = (.error (.suspend closure arguments), after) →
        Suspended surroundings statement.goesOn statement.asked (world.progress replay.rewind) resumed [] grown closure
          arguments after.replay := by
  obtain ⟨resumed, log⟩ := recorded.log
  obtain ⟨grown, grows, ended⟩ := runs surroundings statement.goesOn statement.asked [] track resumed world recorded.fits
  have start : world.progress replay.rewind = world.facing [] track resumed := by
    rw [log]
    rfl
  refine ⟨resumed, grown, start, grows, fun closure arguments after left => ?_⟩
  rw [← start, (asks_exec statement).suspended left] at ended
  exact ended

theorem again (recorded : Recorded statement attempts replay track) {closure : Closure} {arguments : List Value}
    {after : Progress σ}
    (left : exec surroundings statement (world.progress replay.rewind) = (.error (.suspend closure arguments), after))
    (answer : Value) : ∃ answered path slot,
      Recorded statement (⟨surroundings, world.progress replay.rewind⟩ :: attempts) (after.replay.deliver answer)
        answered ∧
      Attempt.Waits statement ⟨surroundings, world.progress replay.rewind⟩ path slot closure arguments ∧
      answered.find 0 path = some (slot, some answer) ∧
      (∀ upper more slot value, path = upper ++ more → more ≠ [] → answered.find 0 upper ≠ some (slot, some value)) ∧
      (∀ other part here, Attempt.Comes statement ⟨surroundings, world.progress replay.rewind⟩ other part here →
        other ≠ path →
        answered.find 0 other = some (here.replay.cursor, (eval surroundings part here).1.toOption)) ∧
      after.replay.slots.size = answered.size := by
  obtain ⟨resumed, grown, start, grows, suspended⟩ := recorded.grows surroundings world
  obtain ⟨path, slot, stop, cursor, same, waits, awaits⟩ := suspended closure arguments after left
  obtain ⟨answered, awaited⟩ := awaits answer
  have awaits : Awaits answer 0 grown path slot stop answered := awaited
  obtain ⟨place, behind, within, filled⟩ := awaits.slots_eq
  rw [Nat.zero_add] at behind
  subst behind
  have kept := awaits.kept
  have notes : ∀ other part here,
      Attempt.Comes statement ⟨surroundings, world.progress replay.rewind⟩ other part here →
      grown.find 0 other = some (here.replay.cursor, (eval surroundings part here).1.toOption) := by
    intro other part here comes
    rw [Attempt.Comes, start] at comes
    exact grows.notes comes
  refine ⟨answered, path, _, ⟨?_, awaits.fits grows.fits, ?_, ?_⟩, waits, awaits.found.2,
    fun upper more outer value around inside => awaits.find_around around inside outer value, ?_, ?_⟩
  · exact ⟨true, by simp [Replay.deliver, same, within, Replay.rewind, Replay.behind, ← filled]⟩
  · intro attempt inside other part here comes
    rcases List.mem_cons.1 inside with rfl | inside
    · -- what this attempt noted stays when the answer is filled in, and what the others did stayed in it before
      obtain ⟨known, found, stays⟩ := kept _ _ _ (notes other part here comes)
      refine ⟨known, found, fun value after found => ?_⟩
      rw [found] at stays
      exact stays rfl
    · obtain ⟨known, found, had⟩ := recorded.noted attempt inside other part here comes
      obtain ⟨later, found, stays⟩ := grows.kept.trans kept _ _ _ found
      refine ⟨later, found, fun value after evaluated => ?_⟩
      have finished := had value after evaluated
      exact (stays (by rw [finished]; rfl)).trans finished
  · intro other found
    have known : grown.find 0 other ≠ .none := by
      by_cases call : other = path
      · rw [call, awaits.found.1]
        exact Option.some_ne_none _
      · rwa [← awaits.find_other call]
    rcases grows.comes_of_find known with known | ⟨part, here, comes⟩
    · obtain ⟨attempt, inside, comes⟩ := recorded.known other known
      exact ⟨attempt, List.mem_cons_of_mem _ inside, comes⟩
    · rw [← start] at comes
      exact ⟨_, List.mem_cons_self, part, here, comes⟩
  · intro other part here comes apart
    rw [awaits.find_other apart]
    exact notes other part here comes
  · rw [same, awaits.size_eq]
    simp

section
variable (recorded : Recorded statement attempts replay track) (surroundings : Surroundings σ) (world : World σ)
include recorded

theorem faces {part : Node} {here : Progress σ}
    (comes : Attempt.Comes statement ⟨surroundings, world.progress replay.rewind⟩ path part here) :
    ∃ resumed, Faces resumed [] track path here := by
  obtain ⟨resumed, grown, start, grows, -⟩ := recorded.grows surroundings world
  rw [Attempt.Comes, start] at comes
  exact ⟨resumed, grows.faces comes⟩

theorem answers_of_comes {part : Node} {here : Progress σ}
    (comes : Attempt.Comes statement ⟨surroundings, world.progress replay.rewind⟩ path part here)
    (found : track.find 0 path = some (slot, some value)) :
    Attempt.Answers statement ⟨surroundings, world.progress replay.rewind⟩ path slot value where
  replayed := by
    obtain ⟨_, faces⟩ := recorded.faces surroundings world comes
    obtain ⟨place, later, taken⟩ := faces.replayed found
    exact ⟨part, here, later, comes, place, taken, fun surroundings => eval_of_replayed taken surroundings part⟩
  skips := by
    intro more other there inside deeper
    obtain ⟨whole, there, slot, opened, around, fresh⟩ := Evaluation.Comes.above deeper comes.not_nil inside
    obtain ⟨_, faces⟩ := recorded.faces surroundings world around
    obtain ⟨-, later, taken⟩ := faces.replayed found
    cases taken.symm.trans fresh

theorem answers (found : track.find 0 path = some (slot, some value)) : ∃ upper slot' value', upper <+: path ∧
    Attempt.Answers statement ⟨surroundings, world.progress replay.rewind⟩ upper slot' value' := by
  obtain ⟨resumed, grown, start, grows, -⟩ := recorded.grows surroundings world
  rcases grows.met found with
    ⟨part, here, comes⟩ | ⟨-, upper, more, slot', value', part, here, rfl, some_, found', comes⟩
  · rw [← start] at comes
    exact ⟨path, slot, value, List.prefix_refl path, recorded.answers_of_comes surroundings world comes found⟩
  · rw [← start] at comes
    exact ⟨upper, slot', value', List.prefix_append _ _, recorded.answers_of_comes surroundings world comes found'⟩

theorem answers_own (found : track.find 0 path = some (slot, some value))
    (outermost : ∀ upper more slot value, path = upper ++ more → more ≠ [] →
      track.find 0 upper ≠ some (slot, some value)) :
    Attempt.Answers statement ⟨surroundings, world.progress replay.rewind⟩ path slot value := by
  obtain ⟨resumed, grown, start, grows, -⟩ := recorded.grows surroundings world
  rcases grows.met found with ⟨part, here, comes⟩ | ⟨-, upper, more, slot', value', part, here, split, some_, found', -⟩
  · rw [← start] at comes
    exact recorded.answers_of_comes surroundings world comes found
  · exact absurd found' (outermost upper more slot' value' split some_)

theorem begins (found : track.find 0 path = some (slot, Option.none)) :
    Attempt.Begins statement ⟨surroundings, world.progress replay.rewind⟩ path slot := by
  obtain ⟨resumed, grown, start, grows, -⟩ := recorded.grows surroundings world
  rcases grows.met found with ⟨part, here, comes⟩ | ⟨impossible, -⟩
  · obtain ⟨opened, taken⟩ := (grows.faces comes).fresh found
    rw [← start] at comes
    exact ⟨part, here, opened, comes, taken⟩
  · cases impossible

end

end Recorded

theorem Attempted.recorded {statement : Node} {attempts : List (Attempt σ)} {replay : Replay}
    (attempted : Attempted statement attempts replay) : ∃ track, Recorded statement attempts replay track := by
  induction attempted with
  | none => exact ⟨.untouched, .none statement⟩
  | again _ left answer ih =>
    obtain ⟨track, recorded⟩ := ih
    obtain ⟨answered, _, _, recorded, -⟩ := recorded.again left answer
    exact ⟨answered, recorded⟩

/-- After any number of attempts at a statement, the last one left at a call: whatever has become of the world, and
wherever it runs, the next attempt
- has the value of each part that an attempt had finished, or of a larger part around it; and where it comes to the part
  itself, the value and the slot are those that the attempt had;
- has the answer for the call, and begins every other part that the last attempt was left in again, in its slot;
- takes slots at the end of the memory, behind all that there were, for the parts that no attempt came to. -/
theorem Attempted.replays_exactly {statement : Node} {earlier : List (Attempt σ)} {replay : Replay}
    (attempted : Attempted statement earlier replay) {surroundings : Surroundings σ} {world : World σ}
    {closure : Closure} {arguments : List Value} {after : Progress σ}
    (left : Evaluation.exec surroundings statement (world.progress replay.rewind) =
      (.error (.suspend closure arguments), after)) (answer : Value) (elsewhere : Surroundings σ) (changed : World σ) :
    let last : Attempt σ := ⟨surroundings, world.progress replay.rewind⟩
    let next : Attempt σ := ⟨elsewhere, changed.progress (after.replay.deliver answer).rewind⟩
    (∀ attempt ∈ last :: earlier, ∀ path slot value, attempt.Finishes statement path slot value →
      (∃ upper slot' value', upper <+: path ∧ next.Answers statement upper slot' value') ∧
        ∀ part here, next.Comes statement path part here → next.Answers statement path slot value) ∧
    (∃ call slot, last.Waits statement call slot closure arguments ∧ next.Answers statement call slot answer ∧
      ∀ path slot', last.Leaves statement path slot' → path ≠ call → next.Begins statement path slot') ∧
    ∀ path part here, next.Comes statement path part here →
      (∀ attempt ∈ last :: earlier, ∀ part' here', ¬attempt.Comes statement path part' here') →
      (∃ opened, here.replay.take = (.fresh here.replay.slots.size, opened)) ∧
        after.replay.slots.size ≤ here.replay.slots.size := by
  intro last next
  -- the track of all attempts, with the answer filled in, has at each path what the next attempt meets there
  obtain ⟨track, before⟩ := attempted.recorded
  obtain ⟨answered, call, slot, recorded, waits, filled, outermost, others, size⟩ := before.again left answer
  refine ⟨?_, ⟨call, slot, waits, ?_, ?_⟩, ?_⟩
  · rintro attempt inside path slot value ⟨part, here, after, comes, rfl, finished⟩
    obtain ⟨known, found, had⟩ := recorded.noted attempt inside path part here comes
    rw [had value after finished] at found
    exact ⟨recorded.answers elsewhere changed found, fun part here comes =>
      recorded.answers_of_comes elsewhere changed comes found⟩
  · exact recorded.answers_own elsewhere changed filled outermost
  · rintro path slot' ⟨part, here, opened, closure, arguments, after, comes, taken, stopped⟩ apart
    have found := others path part here comes apart
    rw [stopped, ← Track.slot_of_take taken] at found
    exact recorded.begins elsewhere changed found
  · intro path part here comes new
    have unknown : answered.find 0 path = .none := by
      refine Classical.byContradiction fun known => ?_
      obtain ⟨attempt, inside, part', here', comes'⟩ := recorded.known path known
      exact new attempt inside part' here' comes'
    obtain ⟨_, faces⟩ := recorded.faces elsewhere changed comes
    have last := faces.new unknown
    rw [size]
    simpa using last

/-- Left at the call in an array, the next attempt does not look at the name again, whatever it means by then, and has
the answer for the call. -/
theorem Attempted.replays_exactly_array :
    let closure : Closure := ⟨"f", [], [], Arena.global, 0⟩
    let scopes := (Arena.initial.assign Arena.global "x" (.text "a")).assign Arena.global "f"
      (.function (.closure closure))
    let world : World Unit := ⟨⟨.empty, scopes⟩, (), [], []⟩
    let here : Surroundings Unit := ⟨Arena.global, fun _ => false, #[]⟩
    let name : Node := .identifier default "x"
    let statement : Node := .array default [name, .call default (.identifier default "f") [], name]
    ∃ after, Evaluation.exec here statement (world.progress .fresh) = (.error (.suspend closure []), after) ∧
      ∀ (answer : Value) (elsewhere : Surroundings Unit) (changed : World Unit),
        let next : Attempt Unit := ⟨elsewhere, changed.progress (after.replay.deliver answer).rewind⟩
        (∀ part there, next.Comes statement [0, 0] part there → next.Answers statement [0, 0] 1 (.text "a")) ∧
          ∃ call slot, next.Answers statement call slot answer := by
  intro closure scopes world here name statement
  obtain ⟨after, left⟩ : ∃ after, Evaluation.exec here statement (world.progress Replay.fresh.rewind) =
      (.error (.suspend closure []), after) := ⟨_, rfl⟩
  refine ⟨after, left, fun answer elsewhere changed => ?_⟩
  obtain ⟨finished, ⟨call, slot, -, answers, -⟩, -⟩ := replays_exactly .none left answer elsewhere changed
  refine ⟨(finished _ List.mem_cons_self [0, 0] 1 (.text "a") ?_).2, call, slot, answers⟩
  exact ⟨name, _, _, .inside rfl .first, rfl, rfl⟩

end TabScript
