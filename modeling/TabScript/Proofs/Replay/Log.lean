import TabScript.Proofs.Failable
import TabScript.Proofs.Replay.Course

/-! The memory of a statement, and the course that is left when it is used.

Slots are numbered in the order in which expressions begin. A finished part of a statement stands in
the memory as one filled slot with the slots of its own parts behind it, and answers without touching
the world; a part that waits stands as an empty slot before the memory of its parts. -/

set_option autoImplicit false

namespace TabScript

variable {σ α β : Type}

abbrev Slot := Option Evaluated

/-- A memory with the next slot behind the passed ones. No call is waited for. -/
def Replay.behind (passed rest : List Slot) (resumed : Bool) : Replay :=
  ⟨(passed ++ rest).toArray, passed.length, none, resumed⟩

namespace Replay

theorem take_end (passed : List Slot) (resumed : Bool) :
    (behind passed [] resumed).take =
      (.fresh passed.length, behind (passed ++ [none]) [] resumed) := by
  simp [take, behind]

theorem take_empty (passed rest : List Slot) (resumed : Bool) :
    (behind passed (none :: rest) resumed).take =
      (.fresh passed.length, behind (passed ++ [none]) rest resumed) := by
  simp [take, behind]

theorem take_filled (passed rest : List Slot) (resumed : Bool) (value : Value) (log : List Slot) :
    (behind passed (some ⟨value, passed.length + 1 + log.length⟩ :: (log ++ rest)) resumed).take =
      (.replayed value, behind (passed ++ some ⟨value, passed.length + 1 + log.length⟩ :: log) rest
        resumed) := by
  simp [take, behind]
  omega

theorem fill_behind (passed log : List Slot) (resumed : Bool) (value : Value) :
    (behind (passed ++ [none] ++ log) [] resumed).fill passed.length value =
      behind (passed ++ some ⟨value, passed.length + 1 + log.length⟩ :: log) [] resumed := by
  simp [fill, behind]
  omega

end Replay

namespace Evaluation

def andThen (reached : Except Interrupt α × Progress σ) (next : α → Evaluation σ β) :
    Except Interrupt β × Progress σ :=
  match reached with
  | (.ok value, progress) => next value progress
  | (.error interrupt, progress) => (.error interrupt, progress)

theorem bind_apply (first : Evaluation σ α) (next : α → Evaluation σ β) (progress : Progress σ) :
    (first >>= next) progress = andThen (first progress) next := by
  change (match first progress with
    | (reached, later) => ExceptT.bindCont next reached later) = _
  rcases first progress with ⟨_ | _, later⟩ <;> rfl

theorem pure_apply (value : α) (progress : Progress σ) :
    (pure value : Evaluation σ α) progress = (.ok value, progress) := rfl

theorem get_bind_apply (next : Progress σ → Evaluation σ α) (progress : Progress σ) :
    (get >>= next) progress = next progress progress := rfl

theorem modify_bind_apply (change : Progress σ → Progress σ) (next : PUnit → Evaluation σ α)
    (progress : Progress σ) : (modify change >>= next) progress = next ⟨⟩ (change progress) := rfl

/-- The log holds a finished part: it gives the value and changes nothing but the next slot. -/
def Replays (part : Evaluation σ α) (passed log : List Slot) (value : α) : Prop :=
  ∀ (world : World σ) (rest : List Slot) (resumed : Bool),
    part (world.progress (.behind passed (log ++ rest) resumed)) =
      (.ok value, world.progress (.behind (passed ++ log) rest resumed))

/-- The call was asked for by the whole computation, so that its result is the last thing missing. -/
def Immediate (resume : Value → World σ → Course σ Value) : Prop :=
  ∀ value world, resume value world = .done (.ok value) world

/-- A result is what the course says, and so is the result of every later attempt that begins with the
log left behind, once the slot of the call that was asked for is filled. Behind the log nothing is
known yet. `kept` says what a finished log is good for, and `own` when the slot of the call is not
taken by the computation but by the expression around it. -/
def Ends (part : Evaluation σ α) (passed : List Slot) (kept : List Slot → α → Prop)
    (own : (Value → World σ → Course σ α) → Prop) :
    Course σ α → (Bool → Except Interrupt α × Progress σ) → Prop
  | .done (.ok value) world, result =>
    ∃ log, kept log value ∧
      ∀ resumed, result resumed = (.ok value, world.progress (.behind (passed ++ log) [] resumed))
  | .done (.error fault) world, result =>
    ∀ resumed, ∃ replay : Replay, replay.waiting = none ∧
      result resumed = (.error (.fail fault), world.progress replay)
  | .call closure arguments world resume, result =>
    (∃ log, own resume ∧ ∀ resumed, result resumed =
      (.error (.suspend closure arguments), world.progress (.behind (passed ++ log) [] resumed))) ∨
    (∃ log slot stop cursor, log[slot]? = some none ∧
      (∀ resumed, result resumed =
        (.error (.suspend closure arguments), world.progress
          ⟨(passed ++ log).toArray, cursor, some (passed.length + slot, stop), resumed⟩)) ∧
      ∀ value later, Ends part passed kept own (resume value later) fun resumed =>
        part (later.progress (.behind passed (log.set slot (some ⟨value, stop⟩)) resumed)))

/-- The computation follows the plan and keeps a log of it: when it is done, the log replays it. -/
def Logged (part : Evaluation σ α) (plan : Plan σ α) : Prop :=
  ∀ passed world, Ends part passed (Replays part passed) (fun _ => False) (plan world)
    fun resumed => part (world.progress (.behind passed [] resumed))

def Carried (own : (Value → World σ → Course σ α) → Prop) (part : Evaluation σ α)
    (plan : Plan σ α) : Prop :=
  ∀ passed world, Ends part passed (fun _ _ => True) own (plan world)
    fun resumed => part (world.progress (.behind passed [] resumed))

theorem Replays.bind {first : Evaluation σ α} {next : α → Evaluation σ β} {passed log later : List Slot}
    {value : α} {result : β} (before : Replays first passed log value)
    (behind : Replays (next value) (passed ++ log) later result) :
    Replays (first >>= next) passed (log ++ later) result := by
  intro world rest resumed
  rw [bind_apply, List.append_assoc, before world (later ++ rest) resumed]
  simpa [andThen] using behind world rest resumed

/-- Behind a finished part, the whole follows the course of the rest. -/
theorem Ends.after {first : Evaluation σ α} {next : α → Evaluation σ β} {passed log : List Slot}
    {value : α} {keptNext kept : List Slot → β → Prop} {own : (Value → World σ → Course σ β) → Prop}
    (before : Replays first passed log value)
    (keeps : ∀ later result, keptNext later result → kept (log ++ later) result) :
    ∀ {course : Course σ β} {result : Bool → Except Interrupt β × Progress σ},
      Ends (next value) (passed ++ log) keptNext own course result →
      Ends (first >>= next) passed kept own course result := by
  intro course
  induction course with
  | done outcome world =>
    intro result ends
    cases outcome with
    | error fault => exact ends
    | ok reached =>
      obtain ⟨later, good, reaches⟩ := ends
      exact ⟨log ++ later, keeps _ _ good, by simpa [List.append_assoc] using reaches⟩
  | call closure arguments world resume ih =>
    intro result ends
    rcases ends with ⟨later, immediate, reaches⟩ | ⟨later, slot, stop, cursor, empty, reaches, goesOn⟩
    · exact .inl ⟨log ++ later, immediate, by simpa [List.append_assoc] using reaches⟩
    · refine .inr ⟨log ++ later, log.length + slot, stop, cursor, ?_, ?_, ?_⟩
      · simpa [List.getElem?_append_right] using empty
      · simpa [List.append_assoc, Nat.add_assoc] using reaches
      · intro answer world'
        have again := ih answer world' (goesOn answer world')
        -- the answer goes into the log of the rest, which lies behind that of the finished part
        have filled : (log ++ later).set (log.length + slot) (some ⟨answer, stop⟩) =
            log ++ later.set slot (some ⟨answer, stop⟩) := by
          simp [List.set_append_right]
        have starts : ∀ resumed, (first >>= next) (world'.progress
            (.behind passed ((log ++ later).set (log.length + slot) (some ⟨answer, stop⟩)) resumed)) =
            next value (world'.progress
              (.behind (passed ++ log) (later.set slot (some ⟨answer, stop⟩)) resumed)) := by
          intro resumed
          rw [filled, bind_apply, before]
          rfl
        simpa only [starts] using again

theorem Ends.bind {first : Evaluation σ α} {next : α → Evaluation σ β} {passed : List Slot}
    (planNext : α → Plan σ β) (keptNext : List Slot → α → List Slot → β → Prop)
    {kept : List Slot → β → Prop} {own : (Value → World σ → Course σ β) → Prop}
    (keeps : ∀ log value later result, Replays first passed log value →
      keptNext log value later result → kept (log ++ later) result)
    (follows : ∀ log value world, Ends (next value) (passed ++ log) (keptNext log value) own
      (planNext value world) fun resumed =>
        next value (world.progress (.behind (passed ++ log) [] resumed))) :
    ∀ {course : Course σ α} {result : Bool → Except Interrupt α × Progress σ},
      Ends first passed (Replays first passed) (fun _ => False) course result →
      Ends (first >>= next) passed kept own (course.bind planNext)
        fun resumed => andThen (result resumed) next := by
  intro course
  induction course with
  | done outcome world =>
    intro result ends
    cases outcome with
    | error fault =>
      intro resumed
      obtain ⟨replay, idle, reaches⟩ := ends resumed
      exact ⟨replay, idle, congrArg (andThen · next) reaches⟩
    | ok value =>
      obtain ⟨log, replays, reaches⟩ := ends
      have rest := (follows log value world).after replays fun _ _ => keeps _ _ _ _ replays
      simpa only [reaches, andThen, Course.bind] using rest
  | call closure arguments world resume ih =>
    intro result ends
    rcases ends with ⟨_, impossible, _⟩ | ⟨log, slot, stop, cursor, empty, reaches, goesOn⟩
    · exact impossible.elim
    · refine .inr ⟨log, slot, stop, cursor, empty, ?_, ?_⟩
      · exact fun resumed => congrArg (andThen · next) (reaches resumed)
      · intro answer later
        simpa only [bind_apply] using ih answer later (goesOn answer later)

theorem replays_pure (passed : List Slot) (value : α) :
    Replays (pure value : Evaluation σ α) passed [] value := by
  intro world rest resumed
  simp [pure_apply]

theorem logged_pure (value : α) : Logged (pure value : Evaluation σ α) (pure value) := by
  intro passed world
  exact ⟨[], replays_pure passed value, by simp [pure_apply]⟩

theorem Logged.bind {first : Evaluation σ α} {next : α → Evaluation σ β} {plan : Plan σ α}
    {planNext : α → Plan σ β} (start : Logged first plan)
    (rest : ∀ value, Logged (next value) (planNext value)) :
    Logged (first >>= next) (plan >>= planNext) := by
  intro passed world
  simp only [bind_apply]
  exact (start passed world).bind planNext (fun log value => Replays (next value) (passed ++ log))
    (fun _ _ _ _ before behind => before.bind behind) fun log value later => rest value _ later

theorem Logged.carried {own : (Value → World σ → Course σ β) → Prop} {first : Evaluation σ α}
    {next : α → Evaluation σ β} {plan : Plan σ α} {planNext : α → Plan σ β}
    (start : Logged first plan) (rest : ∀ value, Carried own (next value) (planNext value)) :
    Carried own (first >>= next) (plan >>= planNext) := by
  intro passed world
  simp only [bind_apply]
  exact (start passed world).bind planNext (fun _ _ _ _ => True)
    (fun _ _ _ _ _ _ => trivial) fun log value later => rest value _ later

/-- What follows a computation without a call of its own is not seen by the log. -/
theorem Ends.map {part : Evaluation σ α} {passed : List Slot} (change : α → β) :
    ∀ {course : Course σ α} {result : Bool → Except Interrupt α × Progress σ},
      Ends part passed (fun _ _ => True) (fun _ => False) course result →
      Ends (part >>= fun value => pure (change value)) passed (fun _ _ => True) (fun _ => False)
        (course.bind fun value => (pure (change value) : Plan σ β))
        fun resumed => andThen (result resumed) fun value => pure (change value) := by
  intro course
  induction course with
  | done outcome world =>
    intro result ends
    cases outcome with
    | error fault =>
      intro resumed
      obtain ⟨replay, idle, reaches⟩ := ends resumed
      exact ⟨replay, idle, congrArg (andThen · _) reaches⟩
    | ok value =>
      obtain ⟨log, _, reaches⟩ := ends
      exact ⟨log, trivial, fun resumed => congrArg (andThen · _) (reaches resumed)⟩
  | call closure arguments world resume ih =>
    intro result ends
    rcases ends with ⟨_, impossible, _⟩ | ⟨log, slot, stop, cursor, empty, reaches, goesOn⟩
    · exact impossible.elim
    · refine .inr ⟨log, slot, stop, cursor, empty, ?_, ?_⟩
      · exact fun resumed => congrArg (andThen · _) (reaches resumed)
      · intro answer later
        simpa only [bind_apply] using ih answer later (goesOn answer later)

theorem Carried.map {part : Evaluation σ α} {plan : Plan σ α}
    (carried : Carried (fun _ => False) part plan) (change : α → β) :
    Carried (fun _ => False) (part >>= fun value => pure (change value))
      (plan >>= fun value => pure (change value)) := by
  intro passed world
  simp only [bind_apply]
  exact (carried passed world).map change

/-- The action does not look at the memory of its statement, nor change it. -/
def Detached (action : Evaluation σ α) : Prop :=
  ∀ (world : World σ) (replay : Replay), action (world.progress replay) =
    ((action (world.progress .fresh)).1,
      (action (world.progress .fresh)).2.world.progress replay)

def Settled (action : Evaluation σ α) : Prop :=
  ∀ progress closure arguments, (action progress).1 ≠ .error (.suspend closure arguments)

theorem carried_act {own : (Value → World σ → Course σ α) → Prop} {action : Evaluation σ α}
    (detached : Detached action) (settled : Settled action) :
    Carried own action (Plan.act action) := by
  intro passed world
  have attempt := detached world
  have asks := settled (world.progress .fresh)
  unfold Plan.act
  rcases reached : action (world.progress .fresh) with ⟨outcome, after⟩
  rw [reached] at attempt asks
  rcases outcome with (fault | ⟨closure, arguments⟩) | value
  · exact fun resumed => ⟨.behind passed [] resumed, rfl, attempt _⟩
  · exact absurd rfl (asks closure arguments)
  · exact ⟨[], trivial, fun resumed => by simpa using attempt (.behind passed [] resumed)⟩

theorem carried_request {action : Evaluation σ Value} (detached : Detached action) :
    Carried Immediate action (Plan.request action) := by
  intro passed world
  have attempt := detached world
  unfold Plan.request
  rcases reached : action (world.progress .fresh) with ⟨outcome, after⟩
  rw [reached] at attempt
  rcases outcome with (fault | ⟨closure, arguments⟩) | value
  · exact fun resumed => ⟨.behind passed [] resumed, rfl, attempt _⟩
  · refine .inl ⟨[], fun _ _ => rfl, fun resumed => ?_⟩
    simpa using attempt (.behind passed [] resumed)
  · exact ⟨[], trivial, fun resumed => by simpa using attempt (.behind passed [] resumed)⟩

theorem logged_fail {action : Evaluation σ α} (detached : Detached action) {fault : Fault}
    (fails : ∀ progress, (action progress).1 = .error (.fail fault)) :
    Logged action (Plan.act action) := by
  intro passed world
  have attempt := detached world
  have failed := fails (world.progress .fresh)
  unfold Plan.act
  rcases reached : action (world.progress .fresh) with ⟨outcome, after⟩
  rw [reached] at attempt failed
  subst failed
  exact fun resumed => ⟨.behind passed [] resumed, rfl, attempt _⟩

def noted (slot : Nat) (reached : Except Interrupt Value × Progress σ) :
    Except Interrupt Value × Progress σ :=
  match reached with
  | (.ok value, after) => (.ok value, { after with replay := after.replay.fill slot value })
  | (.error (.suspend closure arguments), after) =>
    (.error (.suspend closure arguments), { after with replay := after.replay.suspend slot })
  | (.error (.fail fault), after) => (.error (.fail fault), after)

theorem remember_of_fresh {body : Evaluation σ Value} {world : World σ} {replay later : Replay}
    {slot : Nat} (taken : replay.take = (.fresh slot, later)) :
    remember body (world.progress replay) = noted slot (body (world.progress later)) := by
  unfold remember
  simp only [World.replay_progress, taken]
  rfl

theorem remember_of_replayed {body : Evaluation σ Value} {world : World σ} {replay later : Replay}
    {value : Value} (taken : replay.take = (.replayed value, later)) :
    remember body (world.progress replay) = (.ok value, world.progress later) := by
  unfold remember
  simp only [World.replay_progress, taken]
  rfl

theorem replays_remember (body : Evaluation σ Value) (passed log : List Slot) (value : Value) :
    Replays (remember body) passed (some ⟨value, passed.length + 1 + log.length⟩ :: log) value :=
  fun _ rest resumed => remember_of_replayed (Replay.take_filled passed rest resumed value log)

/-- An expression keeps the log of its parts behind its own slot. -/
theorem Ends.remember {body : Evaluation σ Value} {passed : List Slot} :
    ∀ {course : Course σ Value} {result : Bool → Except Interrupt Value × Progress σ},
      Ends body (passed ++ [none]) (fun _ _ => True) Immediate course result →
      Ends (remember body) passed (Replays (remember body) passed) (fun _ => False) course
        fun resumed => noted passed.length (result resumed) := by
  intro course
  induction course with
  | done outcome world =>
    intro result ends
    cases outcome with
    | error fault =>
      intro resumed
      obtain ⟨replay, idle, reaches⟩ := ends resumed
      exact ⟨replay, idle, congrArg (noted _) reaches⟩
    | ok value =>
      obtain ⟨log, _, reaches⟩ := ends
      refine ⟨_, replays_remember body passed log value, fun resumed => ?_⟩
      refine (congrArg (noted _) (reaches resumed)).trans ?_
      rw [← Replay.fill_behind]
      rfl
  | call closure arguments world resume ih =>
    intro result ends
    rcases ends with ⟨log, immediate, reaches⟩ | ⟨log, slot, stop, cursor, empty, reaches, goesOn⟩
    · -- The expression is the call itself, and its slot the one that the result goes to.
      refine .inr ⟨none :: log, 0, passed.length + 1 + log.length, passed.length + 1 + log.length,
        rfl, fun resumed => ?_, fun answer later => ?_⟩
      · refine (congrArg (noted _) (reaches resumed)).trans ?_
        simp [noted, World.progress, Replay.behind, Replay.suspend]
        omega
      · rw [immediate]
        refine ⟨_, replays_remember body passed log answer, fun resumed => ?_⟩
        simpa using replays_remember body passed log answer later [] resumed
    · refine .inr ⟨none :: log, slot + 1, stop, cursor, empty, fun resumed => ?_,
        fun answer later => ?_⟩
      · refine (congrArg (noted _) (reaches resumed)).trans ?_
        simp [noted, World.progress, Replay.suspend]
        omega
      · have again := ih answer later (goesOn answer later)
        simpa only [List.set_cons_succ, remember_of_fresh (Replay.take_empty _ _ _)] using again

theorem Carried.remember {body : Evaluation σ Value} {plan : Plan σ Value}
    (carried : Carried Immediate body plan) : Logged (remember body) plan := by
  intro passed world
  simpa only [remember_of_fresh (Replay.take_end _ _)] using (carried (passed ++ [none]) world).remember

end Evaluation

end TabScript
