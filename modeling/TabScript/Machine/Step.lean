import TabScript.Machine.Execution

/-! Programs run one statement at a time.

A step runs the statement on top of the stack. What the host notices of it is handed out with the
result: its own functions are called at once, but events are delivered only when the statement did
not fail. -/

set_option autoImplicit false

namespace TabScript

inductive Status where
  | running
  | exited
  | halted
  deriving DecidableEq, Repr

def Status.title : Status → String
  | running => "Running"
  | exited => "Exited"
  | halted => "Halted"

structure StepInfo where
  tag : NodeTag
  span : Span
  deriving DecidableEq, Repr

/-- A program in the middle of its run. `hooks` are the kinds of events that were asked for, in the
order of asking. -/
structure Machine (σ : Type) where
  memory : Memory
  stack : Stack
  hooks : List EventKind
  status : Status
  loaded : Bool
  executed : Nat
  hosts : Array (HostFunction σ)
  host : σ

structure Reaction (σ α : Type) where
  result : Except Fault α
  machine : Machine σ
  observed : List Observation

namespace Machine

variable {σ : Type}

def wants (machine : Machine σ) (kind : EventKind) : Bool := machine.hooks.contains kind

def scope (machine : Machine σ) : Snapshot :=
  let inner := (machine.stack.head?.map Continuation.scope).getD Arena.global
  machine.memory.scopes.snapshot machine.memory.heap inner

def isFinished (machine : Machine σ) : Bool :=
  machine.status ≠ .running || machine.stack.all Continuation.isIdle

/-- The program has come to its end: all scopes that nobody needs go, and the hooks see the rest. -/
def exit (machine : Machine σ) : Reaction σ (Option StepInfo) :=
  let memory := machine.memory.collect []
  let event := Event.exit (memory.scopes.snapshot memory.heap Arena.global)
  ⟨.ok none, { machine with memory := memory, stack := [], status := .exited },
    event.deliver machine.hooks⟩

def halt (machine : Machine σ) (fault : Fault) (calls : List HostCall) :
    Reaction σ (Option StepInfo) :=
  ⟨.error fault, { machine with stack := [], status := .halted },
    calls.reverse.map Observation.called⟩

def absorb (machine : Machine σ) (progress : Progress σ) (stack : Stack) : Machine σ :=
  { machine with memory := progress.memory, host := progress.host, stack := stack }

def conclude (machine : Machine σ) (progress : Progress σ) (stack : Stack) (info : StepInfo) :
    Reaction σ (Option StepInfo) :=
  ⟨.ok (some info), machine.absorb progress stack,
    progress.calls.reverse.map Observation.called ++
      progress.events.reverse.flatMap (Event.deliver machine.hooks)⟩

def leave (machine : Machine σ) (progress : Progress σ) (stack : Stack) (value : Value)
    (info : StepInfo) : Reaction σ (Option StepInfo) :=
  match stack.unwind with
  | none => (machine.absorb progress []).halt ⟨.returnOutsideFunction, info.span⟩ progress.calls
  | some (callee, rest) =>
    let delivered := Stack.deliver value rest
    let memory := progress.memory.release callee delivered
    machine.conclude { progress with memory := memory } delivered info

/-- Runs the statement that an activity is at. A statement that goes on after a call was counted
before. -/
def run (machine : Machine σ) (memory : Memory) (activity : Activity) (node : Node)
    (rest : Stack) : Reaction σ (Option StepInfo) :=
  let info : StepInfo := ⟨node.tag, node.span⟩
  let counted : Machine σ :=
    { machine with
      executed := machine.executed + if activity.replay.resumed then 0 else 1
      memory := .initial
      stack := [] }
  let surroundings : Surroundings σ := ⟨activity.scope, machine.wants, machine.hosts⟩
  let start : Progress σ := ⟨memory, activity.replay.rewind, machine.host, [], []⟩
  let (flow, progress) := Evaluation.exec surroundings node start
  let waiting : Activity := { activity with replay := progress.replay }
  match flow with
  | .ok .next => counted.conclude progress (Stack.resume waiting rest) info
  | .ok (.enter inner) =>
    counted.conclude progress (.running inner :: Stack.resume waiting rest) info
  | .ok (.leave value) => counted.leave progress (.running waiting :: rest) value info
  | .error (.suspend closure arguments) =>
    counted.conclude progress (.entering closure arguments :: .running waiting :: rest) info
  | .error (.fail fault) => (counted.absorb progress []).halt fault progress.calls

/-- Runs one statement. There is none once the program has finished; the step that finds this out
is the end of the run.

A statement that calls a function of the program stops at the call, and the statements of the
function run in the following steps. A later step then goes on with the same statement. -/
def step (machine : Machine σ) : Reaction σ (Option StepInfo) :=
  if machine.status = .running then
    match machine with
    | ⟨memory, stack, hooks, status, loaded, executed, hosts, host⟩ =>
      match memory.settle stack with
      | (settled, none) => exit ⟨settled, [], hooks, status, loaded, executed, hosts, host⟩
      | (settled, some (activity, node, rest)) =>
        run ⟨.initial, [], hooks, status, loaded, executed, hosts, host⟩ settled activity node rest
  else
    ⟨.ok none, machine, []⟩

/-- The statement that will run next stands here. -/
def upcomingSpan (machine : Machine σ) : Span :=
  ((machine.stack.findSome? Continuation.upcoming?).map Node.span).getD default

/-- Whether a run may not go on because so many statements ran and some are left. -/
def exceeds (machine : Machine σ) : Option Nat → Bool
  | none => false
  | some limit => decide (limit ≤ machine.executed) && !machine.isFinished

def turn (machine : Machine σ) (limit : Option Nat) : Reaction σ (Option StepInfo) :=
  if machine.exceeds limit then
    ⟨.error ⟨.timeout, machine.upcomingSpan⟩, { machine with status := .halted }, []⟩
  else
    machine.step

def on (machine : Machine σ) (kind : EventKind) : Machine σ :=
  { machine with hooks := machine.hooks ++ [kind] }

/-- Asks for events of several kinds. The first time, the hooks learn that the program is loaded. -/
def load (machine : Machine σ) (kinds : List EventKind) : Machine σ × List Observation :=
  let hooks := machine.hooks ++ kinds
  ({ machine with hooks := hooks, loaded := true },
    if machine.loaded then [] else Event.load.deliver hooks)

def summary (machine : Machine σ) : String :=
  let hooks := ", ".intercalate (machine.hooks.map EventKind.title)
  "Interpreter \x7b state: " ++ machine.status.title ++ ", depth: " ++
    toString machine.stack.length ++ ", executed: " ++ toString machine.executed ++
    ", hooks: [" ++ hooks ++ "], .. \x7d"

end Machine

end TabScript
