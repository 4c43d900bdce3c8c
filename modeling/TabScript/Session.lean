import TabScript.Grammar.Statement
import TabScript.Machine.Step

/-! Programs from their source text to their end. -/

set_option autoImplicit false

namespace TabScript

inductive Binding (σ : Type) where
  | value (json : Json)
  | function (run : HostFunction σ)

abbrev Globals (σ : Type) := List (String × Binding σ)

def defaultLimit : Nat := 2000

def validate (source : String) : Except Fault Unit := (parse source).map fun _ => ()

namespace Machine

variable {σ : Type}

def bind (span : Span) : Memory × Array (HostFunction σ) → Globals σ →
    Except Fault (Memory × Array (HostFunction σ))
  | state, [] => .ok state
  | (memory, hosts), (name, .function run) :: globals =>
    bind span (memory.install name (.host hosts.size), hosts.push run) globals
  | (memory, hosts), (name, .value json) :: globals =>
    match Value.ofJson memory.heap json with
    | some (value, heap) =>
      let larger : Memory := { memory with heap := heap }
      bind span (larger.assign Arena.global name value, hosts) globals
    | none => .error ⟨.unusableGlobal name, span⟩

def ofProgram (program : Block) (globals : Globals σ) (host : σ) : Except Fault (Machine σ) := do
  let builtins := (Memory.initial.install "print" .print).install "len" .length
  let (memory, hosts) ← bind program.span (builtins, #[]) globals
  return {
    memory := memory
    stack := [.running (.block program.statements Arena.global)]
    hooks := []
    status := .running
    loaded := false
    executed := 0
    hosts := hosts
    host := host }

def inspect (source : String) (globals : Globals σ) (hooks : List EventKind) (host : σ) :
    Except Fault (Machine σ × List Observation) := do
  let program ← parse source
  let machine ← ofProgram program globals host
  return machine.load hooks

/-- Runs a program to its end, for at most so many steps. Nothing is said of a run that needs
more. -/
def complete (machine : Machine σ) (limit : Option Nat) : Nat → Option (Reaction σ Unit)
  | 0 => none
  | steps + 1 =>
    let reaction := machine.turn limit
    match reaction.result with
    | .error fault => some ⟨.error fault, reaction.machine, reaction.observed⟩
    | .ok none => some ⟨.ok (), reaction.machine, reaction.observed⟩
    | .ok (some _) =>
      (complete reaction.machine limit steps).map fun later =>
        { later with observed := reaction.observed ++ later.observed }

theorem isSome_complete {machine : Machine σ} {limit : Option Nat} (exceeded : machine.exceeds limit) :
    (machine.complete limit 1).isSome := by
  simp [complete, turn, exceeded]

/-- Runs a source text to its end, for at most so many steps: how it ends, and all that is observed from
its loading on. -/
def runSource (source : String) (globals : Globals σ) (hooks : List EventKind) (host : σ)
    (limit : Option Nat) (steps : Nat) : Option (Except Fault Unit × List Observation) :=
  match inspect source globals hooks host with
  | .error fault => some (.error fault, [])
  | .ok (machine, loaded) =>
    (complete machine limit steps).map fun ended => (ended.result, loaded ++ ended.observed)

end Machine

end TabScript
