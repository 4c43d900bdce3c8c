import TabScript.Session

/-! Where calls are entered, asked for and left.

Bringing the top of the stack to a statement enters a call that was asked for, and leaves the calls
whose bodies are done; the statement may then ask for a call or leave the innermost one. -/

set_option autoImplicit false

namespace TabScript

def Settled.stack (settled : Settled) : Stack :=
  match settled.next with
  | some (activity, _, rest) => .running activity :: rest
  | none => []

namespace Stack

def proceed (waiting : Activity) (rest : Stack) : Except Interrupt Flow → Option Stack
  | .ok .next => some (resume waiting rest)
  | .ok (.enter inner) => some (.running inner :: resume waiting rest)
  | .ok (.leave value) =>
    (unwind (.running waiting :: rest)).map fun left => deliver value left.2
  | .error (.suspend closure arguments) =>
    some (.entering closure arguments :: .running waiting :: rest)
  | .error (.fail _) => none

def failure (span : Span) : Except Interrupt Flow → Fault
  | .error (.fail fault) => fault
  | _ => ⟨.returnOutsideFunction, span⟩

/-- The memory after an attempt: a return leaves the innermost call. -/
def vacate (release : Memory → ScopeId → Stack → Memory) (memory : Memory) (stack : Stack) :
    Except Interrupt Flow → Memory
  | .ok (.leave value) =>
    match unwind stack with
    | some (callee, rest) => release memory callee (deliver value rest)
    | none => memory
  | _ => memory

end Stack

def Passage.ofFlow : Except Interrupt Flow → List Passage
  | .ok (.leave value) => [.returned value]
  | .error (.suspend closure arguments) => [.called closure arguments]
  | _ => []

namespace Memory

section
variable {release : Memory → ScopeId → Stack → Memory} {memory : Memory} {activity : Activity}
  {rest : Stack}

theorem settleWith_nil : memory.settleWith release [] = ⟨memory, [], none⟩ := by
  rw [settleWith]

theorem settleWith_entering {closure : Closure} {arguments : List Value} :
    memory.settleWith release (.entering closure arguments :: rest) =
      ((memory.enter closure arguments).2.settleWith release
        (.running (.body closure (memory.enter closure arguments).1) :: rest)).after
          (.entered (memory.enter closure arguments).1) := by
  rw [settleWith]

theorem settleWith_statement {node : Node} (current : activity.current? = some node) :
    memory.settleWith release (.running activity :: rest) =
      ⟨memory, [], some (activity, node, rest)⟩ := by
  rw [settleWith]
  simp only [current]

theorem settleWith_nothing (spent : activity.current? = none) (sequel : activity.sequel = .nothing) :
    memory.settleWith release (.running activity :: rest) = memory.settleWith release rest := by
  rw [settleWith]
  simp only [spent, sequel]

theorem settleWith_recheck {loop : Node} (spent : activity.current? = none)
    (sequel : activity.sequel = .recheck loop) :
    memory.settleWith release (.running activity :: rest) =
      ⟨memory, [], some (.header loop activity.scope, loop, rest)⟩ := by
  rw [settleWith]
  simp only [spent, sequel]

theorem settleWith_return (spent : activity.current? = none) (sequel : activity.sequel = .return) :
    memory.settleWith release (.running activity :: rest) =
      ((release memory activity.scope (.deliver .none rest)).settleWith release
        (.deliver .none rest)).after (.returned .none) := by
  rw [settleWith]
  simp only [spent, sequel]

end

theorem settleWith_current (release : Memory → ScopeId → Stack → Memory) (memory : Memory)
    (stack : Stack) {activity : Activity} {node : Node} {rest : Stack}
    (next : (memory.settleWith release stack).next = some (activity, node, rest)) :
    activity.current? = some node := by
  induction memory, stack using settleWith.induct release with
  | case1 memory =>
    rw [settleWith_nil] at next
    cases next
  | case2 memory closure arguments rest scope larger entered ih =>
    rw [settleWith_entering, entered] at next
    exact ih next
  | case3 memory activity rest node current =>
    rw [settleWith_statement current] at next
    cases next
    exact current
  | case4 memory activity rest sequel spent ih =>
    rw [settleWith_nothing spent sequel] at next
    exact ih next
  | case5 memory activity rest loop sequel spent =>
    rw [settleWith_recheck spent sequel] at next
    cases next
    rfl
  | case6 memory activity rest sequel spent delivered ih =>
    rw [settleWith_return spent sequel] at next
    exact ih next

end Memory

namespace Machine

variable {σ : Type}

/-- The machine in front of the next statement. -/
def settled (machine : Machine σ) : Settled :=
  machine.memory.settleWith Memory.release machine.stack

/-- How the next statement runs in a memory. -/
def attempt (machine : Machine σ) (memory : Memory) (activity : Activity) (node : Node) :
    Except Interrupt Flow × Progress σ :=
  Evaluation.exec ⟨activity.scope, machine.wants, machine.hosts⟩ node
    ⟨memory, activity.replay.rewind, machine.host, [], []⟩

theorem run_eq (machine : Machine σ) (memory : Memory) (activity : Activity) (node : Node)
    (rest : Stack) :
    machine.run memory activity node rest =
      let reached := machine.attempt memory activity node
      let waiting : Activity := { activity with replay := reached.2.replay }
      let counted : Machine σ :=
        { machine with
          executed := machine.executed + if activity.replay.resumed then 0 else 1
          memory := .initial
          stack := [] }
      match Stack.proceed waiting rest reached.1 with
      | some stack =>
        counted.conclude
          { reached.2 with
            memory := Stack.vacate Memory.release reached.2.memory (.running waiting :: rest)
              reached.1 }
          stack ⟨node.tag, node.span⟩
      | none =>
        (counted.absorb reached.2 []).halt (Stack.failure node.span reached.1) reached.2.calls := by
  unfold run attempt
  rcases reached : Evaluation.exec ⟨activity.scope, machine.wants, machine.hosts⟩ node
    ⟨memory, activity.replay.rewind, machine.host, [], []⟩ with
    ⟨(fault | ⟨closure, arguments⟩) | (_ | inner | value), after⟩
  case ok.leave =>
    simp only [reached, leave, Stack.proceed, Stack.vacate]
    cases Stack.unwind (.running { activity with replay := after.replay } :: rest) <;> rfl
  all_goals
    simp only [reached]
    rfl

def flow? (machine : Machine σ) : Option (Except Interrupt Flow) :=
  machine.settled.next.map fun (activity, node, _) =>
    (machine.attempt machine.settled.memory activity node).1

/-- The value that the next step returns from a call, if its statement is a return. -/
def given? (machine : Machine σ) : Option Value :=
  match machine.flow? with
  | some (.ok (.leave value)) => some value
  | _ => none

theorem flow?_of_given {machine : Machine σ} {value : Value} (given : machine.given? = some value) :
    machine.flow? = some (.ok (.leave value)) := by
  unfold given? at given
  split at given
  · rename_i flow
    cases given
    exact flow
  · cases given

def passages (machine : Machine σ) : List Passage :=
  machine.settled.passages ++ (machine.flow?.map Passage.ofFlow).getD []

end Machine

end TabScript
