import TabScript.Proofs.Reference.Manner

/-! Programs run in the direct style.

Statements run one inside the other. A function of the program runs to its end where it is called, in
a new scope inside the one it was defined in, and no scope is ever given back. A budget bounds the
depth of the recursion; nothing is said of a run that needs more. -/

set_option autoImplicit false

namespace TabScript

/-- A world, and how many statements ran. -/
structure Tally (σ : Type) where
  world : World σ
  executed : Nat

/-- A computation that ends with a value or a fault, or whose budget was too small. -/
abbrev Direct (σ : Type) := ExceptT Fault (StateT (Tally σ) Option)

/-- How statements end: the next one follows, or the call that they belong to returns. -/
inductive Ending where
  | next
  | returned (value : Value) (span : Span)

namespace Direct

variable {σ α : Type}

def act (action : Evaluation σ α) : Direct σ α := fun tally =>
  match action (tally.world.progress .fresh) with
  | (.ok value, after) => some (.ok value, { tally with world := after.world })
  | (.error (.fail fault), after) => some (.error fault, { tally with world := after.world })
  -- Nothing that is carried out in this way asks for a call.
  | (.error (.suspend ..), after) =>
    some (.error ⟨.statementAsValue, default⟩, { tally with world := after.world })

def request (call : Closure → List Value → Direct σ Value) (action : Evaluation σ Value) :
    Direct σ Value := fun tally =>
  match action (tally.world.progress .fresh) with
  | (.ok value, after) => some (.ok value, { tally with world := after.world })
  | (.error (.fail fault), after) => some (.error fault, { tally with world := after.world })
  | (.error (.suspend closure arguments), after) =>
    call closure arguments { tally with world := after.world }

def inPlace (call : Closure → List Value → Direct σ Value) : Manner σ (Direct σ) :=
  ⟨act, request call⟩

def count : Direct σ Unit := fun tally =>
  some (.ok (), { tally with executed := tally.executed + 1 })

def enter (closure : Closure) (arguments : List Value) : Direct σ ScopeId := fun tally =>
  let (scope, memory) := tally.world.memory.enter closure arguments
  some (.ok scope, { tally with world := { tally.world with memory := memory } })

def exhausted : Direct σ α := fun _ => none

variable (wants : EventKind → Bool) (hosts : Array (HostFunction σ))

mutual

def call : Nat → Closure → List Value → Direct σ Value
  | 0, _, _ => exhausted
  | budget + 1, closure, arguments => do
    let scope ← enter closure arguments
    match ← block budget scope closure.body with
    | .next => return .none
    | .returned value _ => return value

def block : Nat → ScopeId → List Node → Direct σ Ending
  | 0, _, _ => exhausted
  | _ + 1, _, [] => return .next
  | budget + 1, scope, node :: nodes => do
    match ← statement budget scope node with
    | .next => block budget scope nodes
    | .returned value span => return .returned value span

def statement : Nat → ScopeId → Node → Direct σ Ending
  | 0, _, _ => exhausted
  | budget + 1, scope, node => do
    count
    let manner := inPlace (call budget)
    let surroundings : Surroundings σ := ⟨scope, wants, hosts⟩
    match node with
    | .assignment _ target value =>
      manner.assignTo surroundings target value
      return .next
    | .choice _ first body others otherwise =>
      match ← manner.firstBranch surroundings (.of first body :: others) with
      | some chosen => block budget scope chosen.statements
      | none =>
        match otherwise with
        | some chosen => block budget scope chosen.statements
        | none => return .next
    | .loop _ header body =>
      if ← manner.condition surroundings header then
        match ← block budget scope body.statements with
        | .next => statement budget scope node
        | .returned value span => return .returned value span
      else
        return .next
    | .definition _ name parameters body =>
      act (Evaluation.define surroundings name parameters body)
      return .next
    | .result span (some value) => return .returned (← manner.eval surroundings value) span
    | .result span none => return .returned .none span
    | .pass _ => return .next
    | .deletion _ target =>
      manner.delete surroundings target
      return .next
    | expression =>
      let _ ← manner.eval surroundings expression
      return .next

end

/-- A whole program. Its end shows the global scope, and nothing can be returned from it. -/
def program (budget : Nat) (nodes : List Node) : Direct σ Unit := do
  match ← block wants hosts budget Arena.global nodes with
  | .next =>
    act do
      let memory := (← get).memory
      Evaluation.emit (.exit (memory.scopes.snapshot memory.heap Arena.global))
  | .returned _ span => throw ⟨.returnOutsideFunction, span⟩

end Direct

end TabScript
