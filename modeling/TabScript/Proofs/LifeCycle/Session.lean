import TabScript.Proofs.LifeCycle.Exchange

/-! The life of a machine, request by request.

It is loaded once, it runs, and at most once it comes to its end. After its end, after a failure and after it
was stopped for its length it stays as it is, whatever is asked of it. -/

set_option autoImplicit false

namespace TabScript

variable {σ : Type}

namespace Exchange

/-- The machine comes to its end, and its hooks hear of it last, with what can be seen from then on. -/
structure Exits (exchange : Exchange σ) : Prop where
  before : exchange.before.status = .running
  after : exchange.after.status = .exited
  answer : exchange.answer.leaves = .exited
  hooks : exchange.after.hooks = exchange.before.hooks
  told : ∃ midway farewell, Observation.Midway exchange.before.hooks midway ∧
    exchange.observed = midway ++ farewell ∧
    (Event.exit exchange.after.scope).Told exchange.before.hooks farewell
  /-- Whoever asked for the end hears of nothing else. -/
  heard : ∀ hook, exchange.before.hooks[hook]? = some .exit →
    Observation.heardBy hook exchange.observed = [.exit exchange.after.scope]

/-- Where the end is told last, those who asked for it hear of it alone. -/
theorem exits_of_told {exchange : Exchange σ} (running : exchange.before.status = .running)
    (exited : exchange.after.status = .exited) (answer : exchange.answer.leaves = .exited)
    (hooks : exchange.after.hooks = exchange.before.hooks)
    (told : Machine.TellsInOrder exchange.observed exchange.after) : exchange.Exits := by
  obtain ⟨midway, ordinary, told⟩ := told
  rw [Machine.farewell, if_pos exited, hooks] at told
  rw [hooks] at ordinary
  have farewell := (Event.exit exchange.after.scope).told_deliver exchange.before.hooks
  refine ⟨running, exited, answer, hooks, ⟨midway, _, ordinary, told, farewell⟩, fun hook asked => ?_⟩
  have silent : Observation.heardBy hook midway = [] := by
    apply ordinary.heardBy_eq_nil
    rintro kind ⟨statement, other⟩
    obtain rfl : EventKind.exit = kind := Option.some.inj (asked.symm.trans other)
    rcases statement with printed | assigned
    · cases printed
    · cases assigned
  rw [told, Observation.heardBy_append, silent, List.nil_append, farewell.heard hook asked]

theorem Exits.stopped {exchange : Exchange σ} (exits : exchange.Exits) :
    exchange.after.status ≠ .running := by
  rw [exits.after]
  simp

structure Rests (last : Machine σ) (exchange : Exchange σ) : Prop where
  before : exchange.before.status = last.status
  after : exchange.after.status = last.status
  executed : exchange.after.executed = last.executed
  scope : exchange.after.scope = last.scope
  answer : exchange.answer.Idle last.scope
  observed : exchange.observed = []

namespace Served

variable {exchange : Exchange σ} (served : exchange.Served) (loaded : exchange.before.loaded = true)
include served loaded

theorem of_running (running : exchange.before.status = .running) :
    exchange.after.loaded = true ∧ exchange.after.status = exchange.answer.leaves ∧
      (exchange.after.status ≠ .running → exchange.after.hooks = exchange.before.hooks) ∧
      Machine.TellsInOrder exchange.observed exchange.after := by
  have further : ∀ machine : Machine σ, machine.status = .running →
      Machine.TellsInOrder [] machine := fun machine running =>
    .of_midway Observation.only_nil (by simp [running])
  cases served with
  | step machine =>
    obtain ⟨kept, status, told⟩ := Machine.step_leaves running
    exact ⟨kept.1.trans loaded, status, fun _ => kept.2, told⟩
  | run completed =>
    obtain ⟨kept, status, told⟩ := Machine.complete_leaves running completed
    exact ⟨kept.1.trans loaded, status, fun _ => kept.2, told⟩
  | load machine kinds =>
    have known : machine.loaded = true := loaded
    refine ⟨rfl, running, fun stopped => absurd running stopped, ?_⟩
    simp only [Machine.load, known, if_true]
    exact further _ running
  | on machine kind => exact ⟨loaded, running, fun stopped => absurd running stopped, further _ running⟩
  | scope machine => exact ⟨loaded, running, fun _ => rfl, further _ running⟩

theorem of_idle (idle : exchange.before.status ≠ .running) :
    exchange.after.loaded = true ∧ exchange.Rests exchange.before := by
  cases served with
  | step machine =>
    have still := Machine.turn_of_idle idle none
    rw [Machine.turn_none] at still
    simp only [still]
    exact ⟨loaded, rfl, rfl, rfl, rfl, rfl, rfl⟩
  | @run machine limit steps ended completed =>
    have stopped : machine.status ≠ .running := idle
    obtain rfl := Machine.complete_of_idle stopped completed
    exact ⟨loaded, rfl, rfl, rfl, rfl, rfl, rfl⟩
  | load machine kinds =>
    have known : machine.loaded = true := loaded
    refine ⟨rfl, rfl, rfl, rfl, rfl, trivial, ?_⟩
    simp only [Machine.load, known, if_true]
  | on machine kind => exact ⟨loaded, rfl, rfl, rfl, rfl, trivial, rfl⟩
  | scope machine => exact ⟨loaded, rfl, rfl, rfl, rfl, rfl, rfl⟩

theorem loaded_after : exchange.after.loaded = true := by
  by_cases running : exchange.before.status = .running
  · exact (served.of_running loaded running).1
  · exact (served.of_idle loaded running).1

/-- Only a machine that runs has something to tell, and only at its end it tells of it. -/
theorem delivered {hook : Nat} {event : Event} (inside : .delivered hook event ∈ exchange.observed) :
    event.kind.OfStatements ∨ exchange.Exits ∧ event.kind = .exit := by
  by_cases running : exchange.before.status = .running
  · obtain ⟨-, status, hooks, told⟩ := served.of_running loaded running
    have ordered := told
    obtain ⟨midway, ordinary, told⟩ := told
    rw [told] at inside
    rcases List.mem_append.1 inside with inside | inside
    · exact .inl (ordinary hook event inside).1
    · unfold Machine.farewell at inside
      split at inside
      · rename_i exited
        have kept := hooks (by simp [exited])
        rw [Observation.event_of_deliver inside]
        exact .inr ⟨exits_of_told running exited (status.symm.trans exited) kept ordered, rfl⟩
      · cases inside
  · rw [(served.of_idle loaded running).2.observed] at inside
    cases inside

end Served

end Exchange

namespace Machine

inductive Session : Machine σ → List (Exchange σ) → Prop where
  | done {machine : Machine σ} : Session machine []
  | next {exchange : Exchange σ} {exchanges : List (Exchange σ)} (served : exchange.Served)
    (rest : Session exchange.after exchanges) : Session exchange.before (exchange :: exchanges)

namespace Session

variable {machine : Machine σ} {exchanges : List (Exchange σ)} (session : Session machine exchanges)
  (loaded : machine.loaded = true)
include session loaded

theorem served {exchange : Exchange σ} (inside : exchange ∈ exchanges) :
    exchange.Served ∧ exchange.before.loaded = true := by
  induction session with
  | done => cases inside
  | next served rest ih =>
    rcases List.mem_cons.1 inside with rfl | inside
    · exact ⟨served, loaded⟩
    · exact ih (served.loaded_after loaded) inside

theorem rests (idle : machine.status ≠ .running) :
    ∀ exchange ∈ exchanges, exchange.Rests machine := by
  induction session with
  | done => exact fun _ impossible => by cases impossible
  | @next first exchanges served rest ih =>
    obtain ⟨loaded', now⟩ := served.of_idle loaded idle
    have still : first.after.status ≠ .running := fun running => idle (now.after.symm.trans running)
    intro exchange inside
    rcases List.mem_cons.1 inside with rfl | inside
    · exact now
    · have later := ih loaded' still exchange inside
      exact ⟨later.before.trans now.after, later.after.trans now.after,
        later.executed.trans now.executed, later.scope.trans now.scope, now.scope ▸ later.answer,
        later.observed⟩

theorem following {earlier later : List (Exchange σ)} {exchange : Exchange σ}
    (split : exchanges = earlier ++ exchange :: later) :
    Session exchange.after later ∧ exchange.after.loaded = true := by
  induction session generalizing earlier with
  | done => simp at split
  | @next first exchanges served rest ih =>
    cases earlier with
    | nil =>
      obtain ⟨rfl, rfl⟩ := List.cons.inj split
      exact ⟨rest, served.loaded_after loaded⟩
    | cons other earlier =>
      have tails : exchanges = earlier ++ exchange :: later := (List.cons.inj split).2
      exact ih (served.loaded_after loaded) tails

theorem stays {earlier later : List (Exchange σ)} {exchange : Exchange σ}
    (split : exchanges = earlier ++ exchange :: later) (stopped : exchange.after.status ≠ .running) :
    ∀ other ∈ later, other.Rests exchange.after := by
  obtain ⟨further, loaded'⟩ := session.following loaded split
  exact further.rests loaded' stopped

end Session

/-- What can happen between a host and a machine that was loaded for these hooks. -/
structure LifeCycle (machine : Machine σ) (hooks : List EventKind) (loaded : List Observation)
    (exchanges : List (Exchange σ)) : Prop where
  asked : machine.hooks = hooks
  /-- The hooks that are there hear that the program is loaded before anything else. -/
  load : Event.load.Told hooks loaded
  /-- Nobody hears of it again. -/
  loadOnce : ∀ exchange ∈ exchanges, ∀ hook, .delivered hook .load ∉ exchange.observed
  /-- Where a running machine finds nothing left to do, the program has come to its end. -/
  ends : ∀ exchange ∈ exchanges, exchange.before.status = .running →
    exchange.answer.leaves = .exited → exchange.Exits
  /-- Nowhere else the hooks hear of an end. -/
  exit : ∀ exchange ∈ exchanges, ∀ hook scope, .delivered hook (.exit scope) ∈ exchange.observed →
    exchange.Exits
  /-- A fault stops a machine that was running. -/
  fails : ∀ exchange ∈ exchanges, exchange.answer.leaves = .halted →
    exchange.before.status = .running ∧ exchange.after.status = .halted
  /-- A program that comes to its end does so once, and there is no fault, before or after. -/
  exitOnce : ∀ earlier exchange later, exchanges = earlier ++ exchange :: later → exchange.Exits →
    ∀ other ∈ earlier ++ later, ¬other.Exits ∧ other.answer.leaves ≠ .halted
  /-- After an end or a fault nothing comes of any request. -/
  stays : ∀ earlier exchange later, exchanges = earlier ++ exchange :: later →
    exchange.after.status ≠ .running → ∀ other ∈ later, other.Rests exchange.after

section
variable {machine : Machine σ} {exchanges : List (Exchange σ)} (session : Session machine exchanges)
  (loaded : machine.loaded = true)
include session loaded

theorem Session.fails {exchange : Exchange σ} (inside : exchange ∈ exchanges)
    (fault : exchange.answer.leaves = .halted) :
    exchange.before.status = .running ∧ exchange.after.status = .halted := by
  obtain ⟨served, loaded'⟩ := session.served loaded inside
  by_cases running : exchange.before.status = .running
  · obtain ⟨-, status, -⟩ := served.of_running loaded' running
    exact ⟨running, status.trans fault⟩
  · obtain ⟨-, rests⟩ := served.of_idle loaded' running
    exact absurd fault rests.answer.leaves_ne_halted

/-- All requests but one find the machine before its end, from which it goes on, or after it. -/
theorem Session.exits_once {earlier later : List (Exchange σ)} {exchange other : Exchange σ}
    (split : exchanges = earlier ++ exchange :: later) (exits : exchange.Exits)
    (inside : other ∈ earlier ++ later) : ¬other.Exits ∧ other.answer.leaves ≠ .halted := by
  rcases List.mem_append.1 inside with inside | inside
  · obtain ⟨before, between, rfl⟩ := List.append_of_mem inside
    have split' : exchanges = before ++ other :: (between ++ exchange :: later) := by
      rw [split, List.append_assoc, List.cons_append]
    have member : other ∈ exchanges := by simp [split']
    -- if the machine had stopped then, it would not have been running when it came to its end
    have further : other.after.status = .running := by
      by_cases running : other.after.status = .running
      · exact running
      · have rests := session.stays loaded split' running exchange (by simp)
        exact rests.before.symm.trans exits.before
    constructor
    · intro exits'
      cases further.symm.trans exits'.after
    · intro fault
      cases further.symm.trans (session.fails loaded member fault).2
  · have rests := session.stays loaded split exits.stopped other inside
    constructor
    · intro exits'
      exact exits.stopped (rests.before.symm.trans exits'.before)
    · exact rests.answer.leaves_ne_halted

theorem Session.lifeCycle :
    LifeCycle machine machine.hooks (Event.load.deliver machine.hooks) exchanges where
  asked := rfl
  load := Event.load.told_deliver machine.hooks
  loadOnce exchange inside hook told := by
    obtain ⟨served, loaded'⟩ := session.served loaded inside
    rcases served.delivered loaded' told with (kind | kind) | ⟨-, kind⟩ <;> cases kind
  ends exchange inside running finished := by
    obtain ⟨served, loaded'⟩ := session.served loaded inside
    obtain ⟨-, status, hooks, told⟩ := served.of_running loaded' running
    have exited := status.trans finished
    exact Exchange.exits_of_told running exited finished (hooks (by simp [exited])) told
  exit exchange inside hook scope told := by
    obtain ⟨served, loaded'⟩ := session.served loaded inside
    rcases served.delivered loaded' told with (kind | kind) | ⟨exits, -⟩
    · cases kind
    · cases kind
    · exact exits
  fails exchange inside fault := session.fails loaded inside fault
  exitOnce _ _ _ split exits _ inside := session.exits_once loaded split exits inside
  stays _ _ _ split stopped := session.stays loaded split stopped

end

/-- Whatever a host asks of the program that it has inspected, and in which order, the program is loaded once,
before all else, and comes to its end at most once. Its hooks hear of the end in the request that finds
nothing left to do, with what can be seen from then on, and not if there is ever a fault. After an end or a
fault no statement runs and nothing is told, counted or changed. -/
theorem inspect_lifeCycle {source : String} {globals : Globals σ} {hooks : List EventKind} {host : σ}
    {machine : Machine σ} {loaded : List Observation} {exchanges : List (Exchange σ)}
    (ready : inspect source globals hooks host = .ok (machine, loaded))
    (session : Session machine exchanges) : LifeCycle machine hooks loaded exchanges := by
  rw [inspect_eq_load] at ready
  cases begun : unheard source globals host with
  | error fault =>
    rw [begun] at ready
    cases ready
  | ok fresh =>
    rw [begun] at ready
    obtain ⟨alone, new⟩ := unheard_ok begun
    have parts : fresh.load hooks = (machine, loaded) := Except.ok.inj ready
    simp only [load, new, alone, List.nil_append, Bool.false_eq_true, if_false, Prod.mk.injEq] at parts
    obtain ⟨rfl, rfl⟩ := parts
    exact session.lifeCycle rfl

/-- A program of one statement is at its end in the second step, and rests from then on. The first hook hears
that it is loaded, and the second one of its end. -/
theorem inspect_lifeCycle_passing :
    ∃ (machine : Machine Unit) (loaded : List Observation) (first second third : Exchange Unit),
      inspect "pass" [] [.load, .exit] () = .ok (machine, loaded) ∧
      Session machine [first, second, third] ∧ second.Exits ∧ third.Rests second.after ∧
      Observation.heardBy 0 loaded = [.load] ∧
      Observation.heardBy 1 second.observed = [.exit second.after.scope] := by
  have runs : ((inspect "pass" ([] : Globals Unit) [.load, .exit] ()).toOption.map fun ready =>
      (ready.1.step.machine.status, ready.1.step.machine.hooks,
        (Answer.stepped ready.1.step.machine.step.result).leaves)) =
      some (.running, [.load, .exit], .exited) := by
    decide +kernel
  obtain ⟨⟨machine, loaded⟩, inspected, ends⟩ := Option.map_eq_some_iff.1 runs
  simp only [Prod.mk.injEq] at ends
  obtain ⟨running, hooks, exited⟩ := ends
  have ready := except_of_toOption inspected
  have session : Session machine [_, _, _] :=
    .next (.step machine) (.next (.step machine.step.machine)
      (.next (.scope machine.step.machine.step.machine) .done))
  have life := inspect_lifeCycle ready session
  have exits := life.ends _ (List.mem_cons_of_mem _ List.mem_cons_self) running exited
  refine ⟨machine, loaded, _, _, _, ready, session, exits,
    life.stays [_] _ [_] rfl exits.stopped _ List.mem_cons_self, life.load.heard 0 rfl,
    exits.heard 1 ?_⟩
  rw [hooks]
  rfl

end Machine

end TabScript
