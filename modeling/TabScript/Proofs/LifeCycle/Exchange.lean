import TabScript.Proofs.Frames.Failure
import TabScript.Proofs.Observers.Audience

/-! What a host asks of a machine, and what comes of it.

As long as a machine runs, its hooks hear of what its statements print and assign, and at its end they hear
of the end. A machine that does not run any more has nothing to tell. -/

set_option autoImplicit false

namespace TabScript

variable {σ : Type}

/-- What a host gets from a machine: the result of a step or of a run, or what can be seen. To ask for events
gives nothing. -/
inductive Answer where
  | stepped (result : Except Fault (Option StepInfo))
  | ran (result : Except Fault Unit)
  | seen (scope : Snapshot)
  | done

namespace Answer

def leaves : Answer → Status
  | stepped (.ok none) | ran (.ok ()) => .exited
  | stepped (.error _) | ran (.error _) => .halted
  | stepped (.ok (some _)) | seen _ | done => .running

def Idle (scope : Snapshot) : Answer → Prop
  | stepped result => result = .ok none
  | ran result => result = .ok ()
  | seen shown => shown = scope
  | done => True

theorem Idle.leaves_ne_halted {scope : Snapshot} {answer : Answer} (idle : answer.Idle scope) :
    answer.leaves ≠ .halted := by
  cases answer with
  | stepped result =>
    obtain rfl := idle
    simp [leaves]
  | ran result =>
    obtain rfl := idle
    simp [leaves]
  | seen | done => simp [leaves]

end Answer

/-- A request of a host: the machine that it is made to, what comes of it, and the machine that is left. -/
structure Exchange (σ : Type) where
  before : Machine σ
  answer : Answer
  observed : List Observation
  after : Machine σ

inductive Exchange.Served : Exchange σ → Prop where
  | step (machine : Machine σ) :
    Served ⟨machine, .stepped machine.step.result, machine.step.observed, machine.step.machine⟩
  | run {machine : Machine σ} {limit : Option Nat} {steps : Nat} {ended : Reaction σ Unit}
    (completed : machine.complete limit steps = some ended) :
    Served ⟨machine, .ran ended.result, ended.observed, ended.machine⟩
  | load (machine : Machine σ) (kinds : List EventKind) :
    Served ⟨machine, .done, (machine.load kinds).2, (machine.load kinds).1⟩
  | on (machine : Machine σ) (kind : EventKind) : Served ⟨machine, .done, [], machine.on kind⟩
  | scope (machine : Machine σ) : Served ⟨machine, .seen machine.scope, [], machine⟩

/-- The hooks hear of nothing but what is printed and assigned, and only those that asked for it. -/
abbrev Observation.Midway (hooks : List EventKind) (observed : List Observation) : Prop :=
  Only (fun hook kind => kind.OfStatements ∧ hooks[hook]? = some kind) observed

namespace Machine

variable {machine : Machine σ} {limit : Option Nat}

def farewell (machine : Machine σ) : List Observation :=
  if machine.status = .exited then (Event.exit machine.scope).deliver machine.hooks else []

/-- Whatever a machine did, its hooks heard of what its statements print and assign, and then, if it has
come to its end, of the end. -/
def TellsInOrder (observed : List Observation) (after : Machine σ) : Prop :=
  ∃ midway, Observation.Midway after.hooks midway ∧ observed = midway ++ after.farewell

theorem TellsInOrder.of_midway {observed : List Observation} {after : Machine σ}
    (midway : Observation.Midway after.hooks observed) (further : after.status ≠ .exited) :
    TellsInOrder observed after :=
  ⟨observed, midway, by rw [farewell, if_neg further, List.append_nil]⟩

theorem attempt_ordinary (machine : Machine σ) (memory : Memory) (activity : Activity) (node : Node) :
    ∀ event ∈ (machine.attempt memory activity node).2.events, event.kind.OfStatements := by
  -- the run is compared with itself, by a relation that looks at one side only
  have shares : Surroundings.Shares
      (fun events _ => ∀ event ∈ events, event.kind.OfStatements)
      (⟨activity.scope, machine.wants, machine.hosts⟩ : Surroundings σ)
      ⟨activity.scope, machine.wants, machine.hosts⟩ := by
    refine ⟨rfl, rfl, fun event earlier _ statement before other inside => ?_⟩
    split at inside
    · rcases List.mem_cons.1 inside with rfl | inside
      · exact statement
      · exact before other inside
    · exact before other inside
  have undisturbed := Evaluation.undisturbed_exec shares node
    ⟨memory, activity.replay.rewind, machine.host, [], []⟩
    ⟨memory, activity.replay.rewind, machine.host, [], []⟩
    ⟨rfl, rfl, rfl, fun _ impossible => (by cases impossible), rfl⟩
  exact undisturbed.2.events

theorem step_leaves (running : machine.status = .running) :
    (machine.step.machine.loaded = machine.loaded ∧ machine.step.machine.hooks = machine.hooks) ∧
      machine.step.machine.status = (Answer.stepped machine.step.result).leaves ∧
      TellsInOrder machine.step.observed machine.step.machine := by
  cases next : machine.settled.next with
  | none =>
    rw [step_eq running, next]
    exact ⟨⟨rfl, rfl⟩, rfl, [], Observation.only_nil, rfl⟩
  | some upcoming =>
    obtain ⟨activity, node, rest⟩ := upcoming
    have ordinary := machine.attempt_ordinary machine.settled.memory activity node
    rw [step_of_next running next]
    generalize machine.attempt machine.settled.memory activity node = reached at ordinary ⊢
    dsimp only
    cases Stack.proceed { activity with replay := reached.2.replay } rest reached.1 with
    | none =>
      exact ⟨⟨rfl, rfl⟩, rfl, .of_midway (Observation.only_called _) (by simp [halt])⟩
    | some stack =>
      have told : Observation.Midway machine.hooks
          (reached.2.events.reverse.flatMap (Event.deliver machine.hooks)) :=
        Observation.only_events fun event inside _ asked => ⟨ordinary event inside, asked⟩
      have midway := (Observation.only_called reached.2.calls.reverse).append told
      exact ⟨⟨rfl, rfl⟩, running, .of_midway midway (by simp [conclude, absorb, running])⟩

theorem turn_leaves (running : machine.status = .running) (limit : Option Nat) :
    ((machine.turn limit).machine.loaded = machine.loaded ∧
        (machine.turn limit).machine.hooks = machine.hooks) ∧
      (machine.turn limit).machine.status = (Answer.stepped (machine.turn limit).result).leaves ∧
      TellsInOrder (machine.turn limit).observed (machine.turn limit).machine := by
  cases within : machine.exceeds limit with
  | true =>
    rw [turn_of_exceeds within]
    exact ⟨⟨rfl, rfl⟩, rfl, .of_midway Observation.only_nil (by simp)⟩
  | false =>
    rw [turn_of_within within]
    exact step_leaves running

theorem complete_leaves {steps : Nat} {ended : Reaction σ Unit} (running : machine.status = .running)
    (completed : machine.complete limit steps = some ended) :
    (ended.machine.loaded = machine.loaded ∧ ended.machine.hooks = machine.hooks) ∧
      ended.machine.status = (Answer.ran ended.result).leaves ∧
      TellsInOrder ended.observed ended.machine := by
  induction steps generalizing machine ended with
  | zero => cases completed
  | succ steps ih =>
    obtain ⟨kept, status, told⟩ := turn_leaves running limit
    rw [complete] at completed
    cases result : (machine.turn limit).result with
    | error fault =>
      simp only [result, Option.some.injEq] at completed status
      subst completed
      exact ⟨kept, status, told⟩
    | ok info =>
      cases info with
      | none =>
        simp only [result, Option.some.injEq] at completed status
        subst completed
        exact ⟨kept, status, told⟩
      | some info =>
        simp only [result] at completed status
        obtain ⟨later, finished, rfl⟩ := Option.map_eq_some_iff.1 completed
        obtain ⟨kept', status', midway', ordinary', told'⟩ := ih status finished
        obtain ⟨midway, ordinary, told⟩ := told
        -- the machine goes on, so that nobody heard of its end yet
        have silent : (machine.turn limit).machine.farewell = [] := by
          rw [farewell, status]
          rfl
        rw [silent, List.append_nil] at told
        rw [← kept'.2] at ordinary
        refine ⟨⟨kept'.1.trans kept.1, kept'.2.trans kept.2⟩, status', midway ++ midway',
          ordinary.append ordinary', ?_⟩
        rw [told, told', List.append_assoc]

theorem complete_of_idle {steps : Nat} {ended : Reaction σ Unit} (idle : machine.status ≠ .running)
    (completed : machine.complete limit steps = some ended) : ended = ⟨.ok (), machine, []⟩ := by
  cases steps with
  | zero => cases completed
  | succ steps =>
    rw [complete, turn_of_idle idle] at completed
    exact (Option.some.inj completed).symm

end Machine

end TabScript
