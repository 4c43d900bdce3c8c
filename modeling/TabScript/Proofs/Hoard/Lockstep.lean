import TabScript.Proofs.Hoard.Attempt

/-! The machine and the hoard run in lockstep.

Every step of the one is a step of the other: it ends in the same way, the host notices the same of it,
and what is left behind still belongs together. -/

set_option autoImplicit false

namespace TabScript

variable {σ : Type}

structure Machine.Mirrors (program : List Node) (ledger : Ledger) (machine : Machine σ)
    (hoard : Hoard σ) : Prop where
  stack : machine.stack = Stack.relocate ledger.place hoard.stack
  abreast : ∃ segments, hoard.stack = Stack.join segments ∧
    Abreast σ program ledger machine.memory hoard.world.memory segments
  host : machine.host = hoard.world.host
  executed : machine.executed = hoard.executed

structure World.Grows (before after : World σ) (calls : List HostCall) (events : List Event) :
    Prop where
  calls : after.calls = calls ++ before.calls
  events : after.events = events ++ before.events
  size : after.memory.scopes.slots.size = before.memory.scopes.slots.size

inductive Hoard.Matches (program : List Node) (place : ScopeId → ScopeId) (front : World σ)
    (hooks : List EventKind) : Outcome σ → Reaction σ (Option StepInfo) → Prop where
  | goesOn {after : Hoard σ} {left : Ledger} {next : Machine σ} {info : StepInfo}
    {calls : List HostCall} {events : List Event} (stands : left.place = place)
    (running : next.status = .running) (mirrors : next.Mirrors program left after)
    (grows : front.Grows after.world calls events) :
    Matches program place front hooks (.goesOn after)
      ⟨.ok (some info), next, calls.reverse.map Observation.called ++
        events.reverse.flatMap (Event.deliver hooks)⟩
  | stops {after : Hoard σ} {left : Ledger} {last : Machine σ} (stands : left.place = place)
    (exited : last.status = .exited) (fixed : place Arena.global = Arena.global)
    (memory : last.memory.Mirrors left after.world.memory)
    (grows : front.Grows after.world [] []) (host : last.host = after.world.host)
    (executed : last.executed = after.executed) :
    Matches program place front hooks (.stops after)
      ⟨.ok none, last, Event.deliver hooks (.exit
        (after.world.memory.scopes.snapshot after.world.memory.heap Arena.global))⟩
  | fails {after : Hoard σ} {fault : Fault} {last : Machine σ} {calls : List HostCall}
    {events : List Event} (halted : last.status = .halted)
    (grows : front.Grows after.world calls events) (host : last.host = after.world.host)
    (executed : last.executed = after.executed) :
    Matches program place front hooks (.fails fault after)
      ⟨.error fault, last, calls.reverse.map Observation.called⟩

namespace Abreast

variable {program : List Node} {ledger : Ledger} (machine : Machine σ) (hoard : Hoard σ)

theorem matches_exit {segments : List Segment}
    (abreast : Abreast σ program ledger machine.memory hoard.world.memory segments)
    (host : machine.host = hoard.world.host) (executed : machine.executed = hoard.executed) :
    Hoard.Matches program ledger.place hoard.world machine.hooks
      (.stops ⟨hoard.world, [], hoard.executed⟩) machine.exit := by
  obtain ⟨marks, collected, -⟩ := abreast.memory.collect abreast.fixed [] (by simp)
  have live := collected.scopes.live collected.scopes.global
  have seen := Arena.snapshot_relocate collected.scopes collected.mirrors live
    hoard.world.memory.heap
  have fixed : (ledger.surviving marks).place Arena.global = Arena.global := abreast.fixed
  have heap := collected.heap_eq
  rw [← heap, fixed] at seen
  unfold Machine.exit
  simp only [List.map_nil] at seen ⊢
  rw [seen]
  have place : (ledger.surviving marks).place = ledger.place := rfl
  exact .stops place rfl abreast.fixed collected ⟨rfl, rfl, rfl⟩ host executed

theorem ended_attempt {memory : Memory} {segments : List Segment} {activity : Activity}
    (abreast : Abreast σ program ledger memory hoard.world.memory segments)
    (inside : .running activity ∈ Stack.join segments) (host : machine.host = hoard.world.host)
    (node : Node) :
    ∃ left, Evaluation.Ended (ledger.since hoard.world) left
      (machine.attempt memory (activity.relocate ledger.place) node)
      (Hoard.attempt machine.wants machine.hosts hoard.world activity node) := by
  obtain ⟨live, known⟩ : ledger.live activity.scope ∧ activity.replay.Admitted ledger :=
    abreast.admitted (.running activity) inside
  have begun : Progress.Mirrors (ledger.since hoard.world)
      ⟨memory, (activity.replay.relocate ledger.place).rewind, machine.host, [], []⟩
      (hoard.world.progress activity.replay.rewind) :=
    ⟨abreast.memory.since hoard.world, rfl, known, host, rfl, rfl⟩
  have live' : (ledger.since hoard.world).live activity.scope := live
  exact Evaluation.ended_exec ⟨activity.scope, machine.wants, machine.hosts⟩ live' node begun

/-- What the attempt of the machine notes, the host of the hoard notices too. -/
theorem grows_of_ended {memory : Memory} {segments : List Segment} {left : Ledger}
    {there here : Except Interrupt Flow × Progress σ}
    (abreast : Abreast σ program ledger memory hoard.world.memory segments)
    (ended : Evaluation.Ended (ledger.since hoard.world) left there here) :
    hoard.world.Grows here.2.world there.2.calls there.2.events where
  calls := by
    have calls : left.calls = hoard.world.calls := ended.calls
    exact calls ▸ ended.mirrors.calls
  events := by
    have events : left.events = hoard.world.events := ended.events
    exact events ▸ ended.mirrors.events
  size := by
    have count : left.count = ledger.count := ended.count
    exact ended.mirrors.memory.scopes.size.trans (count.trans abreast.memory.scopes.size.symm)

theorem matches_run {owner : Option Call} {scope : ScopeId} {activity : Activity}
    {below : List Activity} {lower : List Segment} {node : Node} {memory : Memory}
    (abreast : Abreast σ program ledger memory hoard.world.memory
      (.active owner scope (activity :: below) :: lower))
    (current : activity.current? = some node) (host : machine.host = hoard.world.host)
    (executed : machine.executed = hoard.executed) (running : machine.status = .running) :
    Hoard.Matches program ledger.place hoard.world machine.hooks
      (hoard.conclude activity node (below.map Continuation.running ++ Stack.join lower)
        (Hoard.attempt machine.wants machine.hosts hoard.world activity node))
      (machine.run memory (activity.relocate ledger.place) node
        (Stack.relocate ledger.place (below.map Continuation.running ++ Stack.join lower))) := by
  obtain ⟨left, ended⟩ := abreast.ended_attempt machine hoard List.mem_cons_self host node
  have begins : (hoard.world.progress activity.replay.rewind).replay = activity.replay.rewind := rfl
  have proceeds := abreast.proceed current rfl begins ended
  have grows := grows_of_ended hoard abreast ended
  have place : left.place = ledger.place := ended.place
  have flow := place ▸ ended.flow
  have replay := place ▸ ended.mirrors.replay
  have host' := ended.mirrors.host
  have hoarded : Hoard.attempt machine.wants machine.hosts hoard.world activity node =
      Evaluation.exec ⟨activity.scope, machine.wants, machine.hosts⟩ node
        (hoard.world.progress activity.replay.rewind) := rfl
  rw [hoarded] at grows flow replay host' ⊢
  rw [Machine.run_eq]
  unfold Hoard.conclude
  generalize Evaluation.exec ⟨activity.scope, machine.wants, machine.hosts⟩ node
    (hoard.world.progress activity.replay.rewind) = here at *
  generalize machine.attempt memory (activity.relocate ledger.place) node = there at *
  -- to go on and then to relocate is to relocate and then to go on, so one case analysis does for both sides
  have moved : Stack.proceed { activity.relocate ledger.place with replay := there.2.replay }
        (Stack.relocate ledger.place (below.map Continuation.running ++ Stack.join lower)) there.1 =
      (Stack.proceed { activity with replay := here.2.replay }
        (below.map Continuation.running ++ Stack.join lower) here.1).map
          (Stack.relocate ledger.place) := by
    rw [flow, replay]
    exact Stack.proceed_relocate ledger.place { activity with replay := here.2.replay } _ here.1
  have counted := congrArg (· + if activity.replay.resumed then 0 else 1) executed
  simp only [moved]
  cases goes : Stack.proceed { activity with replay := here.2.replay }
      (below.map Continuation.running ++ Stack.join lower) here.1 with
  | none =>
    simp only [Option.map_none]
    rw [flow, Stack.failure_relocated]
    exact .fails rfl grows host' counted
  | some stack =>
    obtain ⟨last, later, place', rfl, abreast'⟩ := proceeds stack goes
    simp only [Option.map_some]
    refine .goesOn place' running ⟨?_, ⟨later, rfl, ?_⟩, host', counted⟩ grows
    · show Stack.relocate ledger.place _ = Stack.relocate last.place _
      rw [place']
    · have waits : Continuation.relocate ledger.place
          (.running { activity with replay := here.2.replay }) =
            .running { activity.relocate ledger.place with replay := there.2.replay } := by
        rw [replay]
        rfl
      rw [Stack.relocate, List.map_cons, waits] at abreast'
      exact abreast'

end Abreast

namespace Machine.Mirrors

variable {program : List Node} {ledger : Ledger} {machine : Machine σ} {hoard : Hoard σ}

/-- If new scopes are where the ledger says, both come to the same statement. -/
theorem meets (mirrors : machine.Mirrors program ledger hoard)
    (placed : machine.settled.opened = hoard.settled.opened.map ledger.place) :
    ∃ segments, Abreast.Meets σ program ledger segments machine.settled hoard.settled := by
  obtain ⟨segments, joined, abreast⟩ := mirrors.abreast
  refine ⟨segments, ?_⟩
  unfold settled Hoard.settled at placed ⊢
  rw [mirrors.stack, joined] at placed ⊢
  exact abreast.settle placed

theorem lockstep (mirrors : machine.Mirrors program ledger hoard) (running : machine.status = .running)
    (placed : machine.settled.opened = hoard.settled.opened.map ledger.place) :
    Hoard.Matches program ledger.place hoard.front machine.hooks
      (hoard.step machine.wants machine.hosts) machine.step := by
  obtain ⟨segments, meets⟩ := mirrors.meets placed
  obtain ⟨left, later, place, abreast', -, ready, next⟩ := meets
  let front : Hoard σ := { hoard with world := hoard.front }
  rw [step_eq running, next]
  unfold Hoard.step
  cases upcoming : hoard.settled.next with
  | none =>
    have exited := abreast'.matches_exit
      { machine with memory := machine.settled.memory, stack := [] } front mirrors.host
      mirrors.executed
    rw [place] at exited
    exact exited
  | some found =>
    obtain ⟨activity, node, rest⟩ := found
    rw [upcoming] at ready
    cases ready with
    | statement current shape =>
      have ran := abreast'.matches_run { machine with memory := .initial, stack := [] } front
        current mirrors.host mirrors.executed running
      rw [place] at ran
      exact ran

end Machine.Mirrors

end TabScript
