import TabScript.Proofs.Limits.Rounds
import TabScript.Proofs.Observers.Undisturbed
import TabScript.Proofs.Refinement.Run

/-! The same run in front of two audiences.

Hooks only listen. Two hosts that run the same program with different hooks see it take the same steps, and
what both of them listen for they hear alike. -/

set_option autoImplicit false

namespace TabScript

variable {σ : Type}

namespace Observation

/-- Two hosts with their hooks observe the same: the same calls of their functions, and hooks that they
asked for the same kind of events hear the same events. -/
structure Agree (hooks others : List EventKind) (first second : List Observation) : Prop where
  calls : first.filterMap call? = second.filterMap call?
  heard : ∀ (hook other : Nat) (kind : EventKind), hooks[hook]? = some kind →
    others[other]? = some kind → heardBy hook first = heardBy other second

variable {hooks others : List EventKind}

theorem agree_nil : Agree hooks others [] [] := ⟨rfl, fun _ _ _ _ _ => rfl⟩

theorem Agree.append {first second first' second' : List Observation}
    (before : Agree hooks others first second) (after : Agree hooks others first' second') :
    Agree hooks others (first ++ first') (second ++ second') := by
  constructor
  · rw [List.filterMap_append, List.filterMap_append, before.calls, after.calls]
  · intro hook other kind mine theirs
    rw [heardBy_append, heardBy_append, before.heard hook other kind mine theirs,
      after.heard hook other kind mine theirs]

theorem agree_called (made : List HostCall) :
    Agree hooks others (made.map Observation.called) (made.map Observation.called) :=
  ⟨rfl, fun hook other _ _ _ => by rw [heardBy_called, heardBy_called]⟩

def Common (hooks others : List EventKind) (first second : List Event) : Prop :=
  ∀ kind, kind ∈ hooks → kind ∈ others →
    first.filter (fun event => event.kind = kind) = second.filter fun event => event.kind = kind

theorem agree_events {events events' : List Event} (common : Common hooks others events events') :
    Agree hooks others (events.flatMap (Event.deliver hooks))
      (events'.flatMap (Event.deliver others)) := by
  constructor
  · rw [(filter_deliver hooks events).2, (filter_deliver others events').2]
  · intro hook other kind mine theirs
    rw [heardBy_events mine, heardBy_events theirs]
    exact common kind (List.mem_of_getElem? mine) (List.mem_of_getElem? theirs)

theorem agree_deliver (event : Event) :
    Agree hooks others (event.deliver hooks) (event.deliver others) := by
  have alone : Agree hooks others ([event].flatMap (Event.deliver hooks))
      ([event].flatMap (Event.deliver others)) := agree_events fun _ _ _ => rfl
  simpa using alone

end Observation

namespace Machine

def withHooks (machine : Machine σ) (others : List EventKind) : Machine σ :=
  { machine with hooks := others }

def after (machine : Machine σ) (limits : List (Option Nat)) : Machine σ :=
  limits.foldl (fun before limit => (before.turn limit).machine) machine

def counted (machine : Machine σ) (activity : Activity) : Machine σ :=
  { machine with
    executed := machine.executed + if activity.replay.resumed then 0 else 1
    memory := .initial
    stack := [] }

def outcome (machine : Machine σ) (activity : Activity) (node : Node) (rest : Stack)
    (reached : Except Interrupt Flow × Progress σ) : Reaction σ (Option StepInfo) :=
  let waiting : Activity := { activity with replay := reached.2.replay }
  match Stack.proceed waiting rest reached.1 with
  | some stack =>
    let memory := Stack.vacate Memory.release reached.2.memory (.running waiting :: rest) reached.1
    (machine.counted activity).conclude { reached.2 with memory := memory } stack
      ⟨node.tag, node.span⟩
  | none =>
    ((machine.counted activity).absorb reached.2 []).halt (Stack.failure node.span reached.1)
      reached.2.calls

end Machine

/-- The same comes of an action in front of two audiences. The machines that are left differ in nothing
but their hooks. -/
structure Reaction.Agree {α : Type} (hooks others : List EventKind) (first second : Reaction σ α) :
    Prop where
  result : first.result = second.result
  asked : first.machine.hooks = hooks
  machine : second.machine = first.machine.withHooks others
  observed : Observation.Agree hooks others first.observed second.observed

namespace Machine

variable (machine : Machine σ) (others : List EventKind)

theorem agree_exit : Reaction.Agree machine.hooks others machine.exit (machine.withHooks others).exit :=
  ⟨rfl, rfl, rfl, Observation.agree_deliver _⟩

theorem agree_halt (fault : Fault) (calls : List HostCall) :
    Reaction.Agree machine.hooks others (machine.halt fault calls)
      ((machine.withHooks others).halt fault calls) :=
  ⟨rfl, rfl, rfl, Observation.agree_called _⟩

section
variable {first second : Progress σ}
  (agrees : first.Agrees (Observation.Common machine.hooks others) second)
include agrees

theorem absorb_withHooks (stack : Stack) :
    (machine.withHooks others).absorb second stack =
      (machine.absorb first stack).withHooks others := by
  simp only [absorb, withHooks, agrees.memory, agrees.host]

theorem agree_conclude (stack : Stack) (info : StepInfo) :
    Reaction.Agree machine.hooks others (machine.conclude first stack info)
      ((machine.withHooks others).conclude second stack info) := by
  refine ⟨rfl, rfl, machine.absorb_withHooks others agrees stack, ?_⟩
  simp only [conclude, agrees.calls]
  refine (Observation.agree_called _).append (Observation.agree_events fun kind mine theirs => ?_)
  rw [List.filter_reverse, List.filter_reverse, agrees.events kind mine theirs]

end

theorem shares_common (scope : ScopeId) :
    Surroundings.Shares (Observation.Common machine.hooks others)
      (⟨scope, machine.wants, machine.hosts⟩ : Surroundings σ)
      ⟨scope, (machine.withHooks others).wants, machine.hosts⟩ where
  scope := rfl
  hosts := rfl
  told event earlier earlier' _ before := by
    intro kind mine theirs
    have common := before kind mine theirs
    by_cases same : event.kind = kind
    · subst same
      have wanted : machine.wants event.kind = true := List.contains_iff_mem.2 mine
      have wanted' : (machine.withHooks others).wants event.kind = true := List.contains_iff_mem.2 theirs
      simp only [wanted, wanted', if_true, List.filter_cons, common]
    · have dropped (wanted : Bool) (events : List Event) :
          (if wanted then event :: events else events).filter (fun event => event.kind = kind) =
            events.filter fun event => event.kind = kind := by
        cases wanted <;> simp [same]
      rw [dropped, dropped, common]

theorem attempt_withHooks (memory : Memory) (activity : Activity) (node : Node) :
    (machine.attempt memory activity node).1 =
        ((machine.withHooks others).attempt memory activity node).1 ∧
      (machine.attempt memory activity node).2.Agrees (Observation.Common machine.hooks others)
        ((machine.withHooks others).attempt memory activity node).2 :=
  Evaluation.undisturbed_exec (machine.shares_common others activity.scope) node _ _
    ⟨rfl, rfl, rfl, fun _ _ _ => rfl, rfl⟩

theorem agree_outcome (activity : Activity) (node : Node) (rest : Stack)
    {first second : Except Interrupt Flow × Progress σ} (flow : first.1 = second.1)
    (agrees : first.2.Agrees (Observation.Common machine.hooks others) second.2) :
    Reaction.Agree machine.hooks others (machine.outcome activity node rest first)
      ((machine.withHooks others).outcome activity node rest second) := by
  unfold outcome
  dsimp only
  rw [← flow, ← agrees.replay]
  cases Stack.proceed { activity with replay := first.2.replay } rest first.1 with
  | none =>
    have absorbed := (machine.counted activity).absorb_withHooks others agrees []
    have halted := ((machine.counted activity).absorb first.2 []).agree_halt others
      (Stack.failure node.span first.1) first.2.calls
    rw [← absorbed] at halted
    rw [← agrees.calls]
    exact halted
  | some stack =>
    refine (machine.counted activity).agree_conclude others ?_ stack ⟨node.tag, node.span⟩
    exact ⟨by rw [agrees.memory], rfl, agrees.host, agrees.events, agrees.calls⟩

theorem agree_step :
    Reaction.Agree machine.hooks others machine.step (machine.withHooks others).step := by
  by_cases running : machine.status = .running
  · have running' : (machine.withHooks others).status = .running := running
    cases next : machine.settled.next with
    | none =>
      have next' : (machine.withHooks others).settled.next = none := next
      rw [step_eq running, step_eq running', next, next']
      exact agree_exit { machine with memory := machine.settled.memory, stack := [] } others
    | some upcoming =>
      obtain ⟨activity, node, rest⟩ := upcoming
      have next' : (machine.withHooks others).settled.next = some (activity, node, rest) := next
      obtain ⟨flow, agrees⟩ := machine.attempt_withHooks others machine.settled.memory activity node
      rw [step_of_next running next, step_of_next running' next']
      exact machine.agree_outcome others activity node rest flow agrees
  · have idle : (machine.withHooks others).status ≠ .running := running
    rw [step_of_idle running, step_of_idle idle]
    exact ⟨rfl, rfl, rfl, Observation.agree_nil⟩

theorem agree_turn (limit : Option Nat) :
    Reaction.Agree machine.hooks others (machine.turn limit) ((machine.withHooks others).turn limit) := by
  cases within : machine.exceeds limit with
  | true =>
    have within' : (machine.withHooks others).exceeds limit = true := within
    rw [turn_of_exceeds within, turn_of_exceeds within']
    exact ⟨rfl, rfl, rfl, Observation.agree_nil⟩
  | false =>
    have within' : (machine.withHooks others).exceeds limit = false := within
    rw [turn_of_within within, turn_of_within within']
    exact machine.agree_step others

theorem after_withHooks (limits : List (Option Nat)) :
    (machine.after limits).hooks = machine.hooks ∧
      (machine.withHooks others).after limits = (machine.after limits).withHooks others := by
  induction limits generalizing machine with
  | nil => exact ⟨rfl, rfl⟩
  | cons limit rest ih =>
    have turned := machine.agree_turn others limit
    obtain ⟨hooks, later⟩ := ih (machine.turn limit).machine
    refine ⟨hooks.trans turned.asked, ?_⟩
    have further := turned.machine ▸ later
    exact further

theorem agree_complete (limit : Option Nat) (steps : Nat) :
    Option.Rel (Reaction.Agree machine.hooks others) (machine.complete limit steps)
      ((machine.withHooks others).complete limit steps) := by
  induction steps generalizing machine with
  | zero => exact .none
  | succ steps ih =>
    have turned := machine.agree_turn others limit
    rw [complete, complete, ← turned.result]
    cases ended : (machine.turn limit).result with
    | error fault => exact .some ⟨rfl, turned.asked, turned.machine, turned.observed⟩
    | ok info =>
      cases info with
      | none => exact .some ⟨rfl, turned.asked, turned.machine, turned.observed⟩
      | some info =>
        -- after the turn, both are again one machine in front of two audiences
        have rest := ih (machine.turn limit).machine
        rw [turned.asked, ← turned.machine] at rest
        dsimp only
        generalize (machine.turn limit).machine.complete limit steps = mine at rest ⊢
        generalize ((machine.withHooks others).turn limit).machine.complete limit steps = theirs
          at rest ⊢
        cases rest with
        | none => exact .none
        | some later =>
          exact .some ⟨later.result, later.asked, later.machine, turned.observed.append later.observed⟩

def unheard (source : String) (globals : Globals σ) (host : σ) : Except Fault (Machine σ) := do
  ofProgram (← parse source) globals host

theorem inspect_eq_load (source : String) (globals : Globals σ) (hooks : List EventKind) (host : σ) :
    inspect source globals hooks host = (unheard source globals host).map fun fresh => fresh.load hooks := by
  unfold inspect unheard
  cases parse source with
  | error fault => rfl
  | ok program =>
    change (ofProgram program globals host >>= fun fresh => pure (fresh.load hooks)) =
      (ofProgram program globals host).map _
    cases ofProgram program globals host <;> rfl

theorem unheard_ok {source : String} {globals : Globals σ} {host : σ} {fresh : Machine σ}
    (ready : unheard source globals host = .ok fresh) : fresh.hooks = [] ∧ fresh.loaded = false := by
  obtain ⟨program, -, made⟩ := except_bind_ok ready
  obtain ⟨provided, -, made⟩ := except_bind_ok made
  cases made
  exact ⟨rfl, rfl⟩

theorem agree_load {fresh first second : Machine σ} {hooks others : List EventKind}
    {loaded loaded' : List Observation} (alone : fresh.hooks = []) (mine : fresh.load hooks = (first, loaded))
    (theirs : fresh.load others = (second, loaded')) :
    first.hooks = hooks ∧ second = first.withHooks others ∧
      Observation.Agree hooks others loaded loaded' := by
  simp only [load, alone, List.nil_append, Prod.mk.injEq] at mine theirs
  obtain ⟨rfl, rfl⟩ := mine
  obtain ⟨rfl, rfl⟩ := theirs
  refine ⟨rfl, rfl, ?_⟩
  split
  · exact Observation.agree_nil
  · exact Observation.agree_deliver _

/-- Observation does not influence a run. Whichever hooks a host comes with, the program is refused for the
same reason, and if it is not, all turns have the same results, call the same functions of the host, and
count and show the same. Hooks for the same kind of events hear the same events, wherever they stand. So it
is for the turns of a host that steps, whatever limits it looks at, and for whole runs. -/
theorem observers_are_passive (source : String) (globals : Globals σ) (host : σ)
    (hooks others : List EventKind) :
    (∀ fault, inspect source globals hooks host = .error fault ↔
      inspect source globals others host = .error fault) ∧
    ∀ first second loaded loaded', inspect source globals hooks host = .ok (first, loaded) →
      inspect source globals others host = .ok (second, loaded') →
      Observation.Agree hooks others loaded loaded' ∧
      (∀ limits, (second.after limits).executed = (first.after limits).executed ∧
        (second.after limits).scope = (first.after limits).scope ∧
        ∀ limit, Reaction.Agree hooks others ((first.after limits).turn limit)
          ((second.after limits).turn limit)) ∧
      ∀ limit steps, Option.Rel (Reaction.Agree hooks others) (first.complete limit steps)
        (second.complete limit steps) := by
  rw [inspect_eq_load, inspect_eq_load]
  cases ready : unheard source globals host with
  | error fault =>
    refine ⟨fun _ => Iff.rfl, fun first second loaded loaded' mine => ?_⟩
    cases mine
  | ok fresh =>
    refine ⟨fun fault => ⟨fun fails => (by cases fails), fun fails => (by cases fails)⟩, ?_⟩
    intro first second loaded loaded' mine theirs
    obtain ⟨rfl, rfl, heard⟩ :=
      agree_load (unheard_ok ready).1 (Except.ok.inj mine) (Except.ok.inj theirs)
    refine ⟨heard, fun limits => ?_, first.agree_complete others⟩
    obtain ⟨same, later⟩ := first.after_withHooks others limits
    rw [later]
    refine ⟨rfl, rfl, fun limit => ?_⟩
    have turned := (first.after limits).agree_turn others limit
    rw [same] at turned
    exact turned

/-- What is printed is heard by hooks in different places. -/
theorem observers_are_passive_printing :
    ∃ (first second : Machine Unit) (loaded loaded' : List Observation),
      inspect "print(None)" [] [.print] () = .ok (first, loaded) ∧
      inspect "print(None)" [] [.exit, .print] () = .ok (second, loaded') ∧
      (Observation.heardBy 0 (first.turn none).observed).length = 1 ∧
      Observation.heardBy 0 (first.turn none).observed =
        Observation.heardBy 1 (second.turn none).observed := by
  have runs : ((inspect "print(None)" ([] : Globals Unit) [.print] ()).toOption.map fun ready =>
      (Observation.heardBy 0 (ready.1.turn none).observed).length) = some 1 := by
    decide +kernel
  have ready : (inspect "print(None)" ([] : Globals Unit) [.exit, .print] ()).toOption.isSome := by
    decide +kernel
  obtain ⟨⟨first, loaded⟩, inspected, heard⟩ := Option.map_eq_some_iff.1 runs
  obtain ⟨⟨second, loaded'⟩, inspected'⟩ := Option.isSome_iff_exists.1 ready
  have mine := except_of_toOption inspected
  have theirs := except_of_toOption inspected'
  have agree := observers_are_passive "print(None)" ([] : Globals Unit) () [.print] [.exit, .print]
  obtain ⟨-, turns, -⟩ := agree.2 first second loaded loaded' mine theirs
  exact ⟨first, second, loaded, loaded', mine, theirs, heard,
    ((turns []).2.2 none).observed.heard 0 1 .print rfl rfl⟩

end Machine

end TabScript
