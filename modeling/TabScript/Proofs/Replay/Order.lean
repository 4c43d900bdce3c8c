import TabScript.Proofs.Replay.Composed

/-! The memory of a statement stays in order, whoever listens and whatever world it runs in.

Slots are taken one behind the other and never given back, a filled slot points behind itself, and the
slot of a call that is waited for is empty until its result is there. -/

set_option autoImplicit false

namespace TabScript

namespace Replay

/-- Filled slots point forward, within the slots taken so far, and the result of the call that is
waited for has its empty slot. -/
structure Sound (replay : Replay) : Prop where
  cursor_le : replay.cursor ≤ replay.slots.size
  filled {slot : Nat} {done : Evaluated} :
    replay.slots[slot]? = some (some done) → slot < done.stop ∧ done.stop ≤ replay.slots.size
  awaited {slot stop : Nat} : replay.waiting = some (slot, stop) →
    replay.slots[slot]? = some none ∧ slot < stop ∧ stop ≤ replay.slots.size

/-- What is in the slots of the first memory is in those of the second. -/
def Recalls (before after : Replay) : Prop :=
  ∀ (slot : Nat) (done : Evaluated), before.slots[slot]? = some (some done) →
    after.slots[slot]? = some (some done)

structure Extends (before after : Replay) : Prop where
  sound : after.Sound
  cursor_le : before.cursor ≤ after.cursor
  kept {slot : Nat} : slot < before.cursor → after.slots[slot]? = before.slots[slot]?
  recalls : before.Recalls after

theorem sound_fresh : fresh.Sound where
  cursor_le := Nat.le_refl 0
  filled := by simp [fresh]
  awaited := by simp [fresh]

theorem Sound.rewind {replay : Replay} (sound : replay.Sound) : replay.rewind.Sound where
  cursor_le := Nat.zero_le _
  filled := sound.filled
  awaited := sound.awaited

theorem Sound.extends_self {replay : Replay} (sound : replay.Sound) : replay.Extends replay :=
  ⟨sound, Nat.le_refl _, fun _ => rfl, fun _ _ => id⟩

theorem Extends.trans {first second third : Replay} (start : first.Extends second)
    (rest : second.Extends third) : first.Extends third where
  sound := rest.sound
  cursor_le := Nat.le_trans start.cursor_le rest.cursor_le
  kept passed := (rest.kept (Nat.lt_of_lt_of_le passed start.cursor_le)).trans (start.kept passed)
  recalls slot done filled := rest.recalls slot done (start.recalls slot done filled)

theorem Sound.take_replayed {replay later : Replay} {value : Value} (sound : replay.Sound)
    (taken : replay.take = (.replayed value, later)) :
    replay.Extends later ∧ later.waiting = replay.waiting := by
  unfold take at taken
  split at taken
  · rename_i done present
    obtain ⟨-, rfl⟩ := Prod.mk.inj taken
    have forward := sound.filled present
    exact ⟨⟨⟨forward.2, sound.filled, sound.awaited⟩, Nat.le_of_lt forward.1, fun _ => rfl,
      fun _ _ => id⟩, rfl⟩
  · cases taken
  · cases taken

theorem Sound.take_fresh {replay later : Replay} {slot : Nat} (sound : replay.Sound)
    (taken : replay.take = (.fresh slot, later)) :
    slot = replay.cursor ∧ later.cursor = slot + 1 ∧ later.slots[slot]? = some none ∧
      later.waiting = replay.waiting ∧ replay.Extends later := by
  unfold take at taken
  split at taken
  · cases taken
  · rename_i present
    obtain ⟨-, rfl⟩ := Prod.mk.inj taken
    have inside : replay.cursor < replay.slots.size := (Array.getElem?_eq_some_iff.1 present).1
    cases taken
    exact ⟨rfl, rfl, present, rfl, ⟨inside, sound.filled, sound.awaited⟩, Nat.le_succ _, fun _ => rfl,
      fun _ _ => id⟩
  · rename_i absent
    -- the cursor is never beyond the end, so a slot that is not there is the next one
    have outside : replay.cursor = replay.slots.size := by
      have bound := sound.cursor_le
      have beyond := Array.getElem?_eq_none_iff.1 absent
      omega
    cases taken
    refine ⟨rfl, rfl, by simp [outside], rfl, ⟨?_, ?_, ?_⟩, Nat.le_succ _, ?_, ?_⟩
    · simp [outside]
    · intro slot done present
      have present' : replay.slots[slot]? = some (some done) := by
        simp only [Array.getElem?_push] at present
        split at present
        · cases present
        · exact present
      have forward := sound.filled present'
      simp only [Array.size_push]
      omega
    · intro slot stop waits
      obtain ⟨empty, forward, within⟩ := sound.awaited waits
      have inside : slot < replay.slots.size := by omega
      refine ⟨?_, forward, ?_⟩
      · rw [Array.getElem?_push, if_neg (by omega), empty]
      · simp only [Array.size_push]
        omega
    · intro slot passed
      have passed' : slot < replay.cursor := passed
      rw [Array.getElem?_push, if_neg (by omega)]
    · intro slot done filled
      have inside : slot < replay.slots.size := (Array.getElem?_eq_some_iff.1 filled).1
      rw [Array.getElem?_push, if_neg (by omega), filled]

theorem Extends.fill {before later after : Replay} {value : Value} (start : before.Extends later)
    (opened : later.cursor = before.cursor + 1) (empty : later.slots[before.cursor]? = some none)
    (inner : later.Extends after)
    (idle : after.waiting = none) : before.Extends (after.fill before.cursor value) := by
  have ahead := inner.cursor_le
  refine ⟨⟨?_, ?_, ?_⟩, ?_, ?_, ?_⟩
  · simpa [Replay.fill] using inner.sound.cursor_le
  · intro slot done present
    simp only [Replay.fill, Array.getElem?_setIfInBounds, Array.size_setIfInBounds] at present ⊢
    split at present
    · split at present
      · obtain rfl := Option.some.inj (Option.some.inj present)
        have within := inner.sound.cursor_le
        exact ⟨by simp only; omega, within⟩
      · cases present
    · exact inner.sound.filled present
  · simp [Replay.fill, idle]
  · simp only [Replay.fill]
    omega
  · intro slot passed
    rw [Replay.fill, Array.getElem?_setIfInBounds, if_neg (by omega),
      inner.kept (by omega), start.kept passed]
  · intro slot done filled
    have known := start.recalls slot done filled
    -- the slot of the expression was empty, so that it is not one of those
    have other : before.cursor ≠ slot := by
      rintro rfl
      cases empty.symm.trans known
    rw [Replay.fill, Array.getElem?_setIfInBounds, if_neg other]
    exact inner.recalls slot done known

theorem Extends.suspend {before later after : Replay} (start : before.Extends later)
    (opened : later.cursor = before.cursor + 1) (empty : later.slots[before.cursor]? = some none)
    (inner : later.Extends after) :
    before.Extends (after.suspend before.cursor) ∧
      (after.suspend before.cursor).waiting.isSome := by
  have ahead := inner.cursor_le
  have whole := start.trans inner
  unfold Replay.suspend
  split
  · refine ⟨⟨⟨inner.sound.cursor_le, inner.sound.filled, ?_⟩, whole.cursor_le, whole.kept,
      whole.recalls⟩, rfl⟩
    intro slot stop waits
    obtain ⟨rfl, rfl⟩ := Prod.mk.inj (Option.some.inj waits)
    exact ⟨(inner.kept (by omega)).trans empty, by omega, inner.sound.cursor_le⟩
  · rename_i waits
    exact ⟨whole, by simp [waits]⟩

theorem Sound.deliver_eq {replay : Replay} {slot stop : Nat} (sound : replay.Sound)
    (waits : replay.waiting = some (slot, stop)) (value : Value) :
    replay.deliver value =
      ⟨replay.slots.setIfInBounds slot (some ⟨value, stop⟩), replay.cursor, none, true⟩ := by
  obtain ⟨-, forward, within⟩ := sound.awaited waits
  have inside : slot < replay.slots.size := by omega
  simp [deliver, waits, inside]

theorem Sound.deliver {replay : Replay} (sound : replay.Sound) (value : Value) :
    (replay.deliver value).Sound := by
  cases waits : replay.waiting with
  | none => simpa [Replay.deliver, waits] using sound
  | some waiting =>
    obtain ⟨slot, stop⟩ := waiting
    obtain ⟨-, forward, within⟩ := sound.awaited waits
    rw [sound.deliver_eq waits]
    refine ⟨by simpa using sound.cursor_le, ?_, by simp⟩
    intro other done present
    simp only [Array.getElem?_setIfInBounds, Array.size_setIfInBounds] at present ⊢
    split at present
    · split at present
      · obtain rfl := Option.some.inj (Option.some.inj present)
        exact ⟨by simp only; omega, within⟩
      · cases present
    · exact sound.filled present

end Replay

namespace Evaluation

variable {σ α β : Type}

/-- The memory behind a result. Outside of expressions a call is never left without its slot. -/
def Keeps (inside : Bool) (before : Replay) : Except Interrupt α × Progress σ → Prop
  | (.ok _, after) => before.Extends after.replay ∧ after.replay.waiting = none
  | (.error (.fail _), _) => True
  | (.error (.suspend closure arguments), after) =>
    closure.parameters.length = arguments.length ∧ before.Extends after.replay ∧
      (inside = false → after.replay.waiting.isSome)

def Orderly (inside : Bool) (part : Evaluation σ α) : Prop :=
  ∀ progress : Progress σ, progress.replay.Sound → progress.replay.waiting = none →
    Keeps inside progress.replay (part progress)

def Fitting (part : Evaluation σ Value) : Prop :=
  Detached part ∧ ∀ progress closure arguments,
    (part progress).1 = .error (.suspend closure arguments) →
      closure.parameters.length = arguments.length

theorem Detached.replay_eq {action : Evaluation σ α} (detached : Detached action)
    (progress : Progress σ) : (action progress).2.replay = progress.replay := by
  have attempt := detached progress.world progress.replay
  rw [Progress.progress_world] at attempt
  rw [attempt]
  rfl

theorem Steady.orderly {inside : Bool} {action : Evaluation σ α} (steady : Steady action) :
    Orderly inside action := by
  intro progress sound idle
  have same := steady.detached.replay_eq progress
  have asks := steady.settled progress
  rcases reached : action progress with ⟨(fault | ⟨closure, arguments⟩) | value, after⟩
  · trivial
  · exact absurd (congrArg Prod.fst reached) (asks closure arguments)
  · simp only [reached] at same
    simp only [Keeps, same]
    exact ⟨sound.extends_self, idle⟩

theorem Fitting.orderly {part : Evaluation σ Value} (fitting : Fitting part) :
    Orderly true part := by
  intro progress sound idle
  have same := fitting.1.replay_eq progress
  rcases reached : part progress with ⟨(fault | ⟨closure, arguments⟩) | value, after⟩
  · trivial
  · simp only [reached] at same
    simp only [Keeps, same]
    exact ⟨fitting.2 progress closure arguments (congrArg Prod.fst reached), sound.extends_self,
      fun impossible => by cases impossible⟩
  · simp only [reached] at same
    simp only [Keeps, same]
    exact ⟨sound.extends_self, idle⟩

theorem Orderly.bind {inside : Bool} {first : Evaluation σ α} {next : α → Evaluation σ β}
    (start : Orderly false first) (rest : ∀ value, Orderly inside (next value)) :
    Orderly inside (first >>= next) := by
  intro progress sound idle
  have before := start progress sound idle
  rw [bind_apply]
  rcases reached : first progress with ⟨(fault | ⟨closure, arguments⟩) | value, after⟩
  · trivial
  · rw [reached] at before
    exact ⟨before.1, before.2.1, fun _ => before.2.2 rfl⟩
  · rw [reached] at before
    have later := rest value after before.1.sound before.2
    simp only [andThen]
    rcases ended : next value after with ⟨(fault | ⟨closure, arguments⟩) | result, final⟩
    · trivial
    · rw [ended] at later
      exact ⟨later.1, before.1.trans later.2.1, later.2.2⟩
    · rw [ended] at later
      exact ⟨before.1.trans later.1, later.2⟩

theorem Orderly.remember {inside : Bool} {body : Evaluation σ Value} (parts : Orderly true body) :
    Orderly inside (remember body) := by
  intro progress sound idle
  rcases taken : progress.replay.take with ⟨value | slot, later⟩
  · have replayed := sound.take_replayed taken
    rw [← progress.progress_world, remember_of_replayed taken]
    exact ⟨replayed.1, replayed.2.trans idle⟩
  · obtain ⟨rfl, opened, empty, waits, start⟩ := sound.take_fresh taken
    rw [← progress.progress_world, remember_of_fresh taken]
    have inner := parts (progress.world.progress later) start.sound (waits.trans idle)
    rcases reached : body (progress.world.progress later) with
      ⟨(fault | ⟨closure, arguments⟩) | value, after⟩
    · trivial
    · rw [reached] at inner
      have asked := start.suspend opened empty inner.2.1
      exact ⟨inner.1, asked.1, fun _ => asked.2⟩
    · rw [reached] at inner
      exact ⟨start.fill opened empty inner.1 inner.2, inner.2⟩

theorem Composed.orderly {inside : Bool} {part : Evaluation σ α}
    (parts : Composed (fun _ part => Steady part) Fitting inside α part) : Orderly inside part := by
  induction parts with
  | action good => exact good.orderly
  | ask good => exact good.orderly
  | bind _ _ start rest => exact start.bind rest
  | expression _ body => exact body.remember

theorem fitting_apply (surroundings : Surroundings σ) (span : Span) (callee : Node)
    (nodes : List Node) (function : Value) (arguments : List Value) :
    Fitting (apply surroundings span callee nodes function arguments) :=
  ⟨detached_apply _ _ _ _ _ _, fun _ _ _ suspended => (apply_suspends suspended).2.2⟩

theorem orderly_exec (surroundings : Surroundings σ) (node : Node) :
    Orderly false (exec surroundings node) :=
  (composed_exec (steady_actions surroundings) (fitting_apply surroundings) node).orderly

end Evaluation

end TabScript
