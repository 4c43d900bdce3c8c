import TabScript.Proofs.Failable
import TabScript.Proofs.Stack.Reached

/-! What a run keeps.

A property of the memory and of the work on the stack holds of every state that a program can come to, if it holds
at the beginning and is kept by the few things that change them: what the host provides, a call that is entered or
left, and an attempt at a statement. -/

set_option autoImplicit false

namespace TabScript

namespace Activity

theorem next?_cases (activity : Activity) :
    (activity.next? = none ∧ ((∃ loop, activity.work = .header loop) ∨ activity.sequel = .nothing)) ∨
    ∃ remaining, activity.work = .statements remaining ∧
      activity.next? = some { activity with work := .statements remaining.tail, replay := .fresh } := by
  unfold next?
  split
  · rename_i loop work
    exact .inl ⟨rfl, .inl ⟨loop, work⟩⟩
  · rename_i remaining work
    dsimp only
    split
    · rename_i sequel
      exact .inl ⟨rfl, .inr sequel⟩
    · exact .inr ⟨remaining, work, rfl⟩

theorem next?_eq_some {activity left : Activity} (remains : activity.next? = some left) :
    ∃ remaining, activity.work = .statements remaining ∧
      left = { activity with work := .statements remaining.tail, replay := .fresh } := by
  rcases activity.next?_cases with ⟨none_, -⟩ | ⟨remaining, work, kept⟩
  · cases none_.symm.trans remains
  · exact ⟨remaining, work, Option.some.inj (remains.symm.trans kept)⟩

end Activity

namespace Stack

variable {holds : Continuation → Prop} {stack rest : Stack}

/-- A return goes on with what stood below the call. -/
theorem unwind_suffix {callee : ScopeId} (found : unwind stack = some (callee, rest)) : rest <:+ stack := by
  induction stack with
  | nil => cases found
  | cons top lower ih =>
    rw [unwind] at found
    split at found
    · cases found
      exact List.suffix_cons top _
    · exact (ih found).trans (List.suffix_cons top lower)

theorem forall_deliver {value : Value} (all : ∀ continuation ∈ stack, holds continuation)
    (delivers : ∀ continuation, holds continuation → holds (continuation.deliver value)) :
    ∀ continuation ∈ deliver value stack, holds continuation := by
  cases stack with
  | nil => exact all
  | cons top rest =>
    rw [List.forall_mem_cons] at all
    exact List.forall_mem_cons.2 ⟨delivers top all.1, all.2⟩

theorem forall_resume {activity : Activity} (others : ∀ continuation ∈ rest, holds continuation)
    (remains : ∀ left, activity.next? = some left → holds (.running left)) :
    ∀ continuation ∈ resume activity rest, holds continuation := by
  unfold resume
  cases left : activity.next? with
  | none => exact others
  | some later => exact List.forall_mem_cons.2 ⟨remains later left, others⟩

/-- An attempt at a statement leaves on the stack what remains of the work that it belongs to, what it enters or asks
for, and what stood below. -/
theorem forall_proceed {waiting : Activity} {ended : Except Interrupt Flow}
    (first : holds (.running waiting)) (others : ∀ continuation ∈ rest, holds continuation)
    (remains : ∀ left, waiting.next? = some left → holds (.running left))
    (enters : ∀ inner, ended = .ok (.enter inner) → holds (.running inner))
    (leaves : ∀ value, ended = .ok (.leave value) →
      ∀ continuation, holds continuation → holds (continuation.deliver value))
    (calls : ∀ closure arguments, ended = .error (.suspend closure arguments) →
      holds (.entering closure arguments))
    (goes : proceed waiting rest ended = some stack) : ∀ continuation ∈ stack, holds continuation := by
  rcases ended with (fault | ⟨closure, arguments⟩) | (_ | inner | value)
  case error.fail => cases goes
  case error.suspend =>
    cases goes
    rw [List.forall_mem_cons, List.forall_mem_cons]
    exact ⟨calls closure arguments rfl, first, others⟩
  case ok.next =>
    cases goes
    exact forall_resume others remains
  case ok.enter =>
    cases goes
    exact List.forall_mem_cons.2 ⟨enters inner rfl, forall_resume others remains⟩
  case ok.leave =>
    obtain ⟨⟨callee, lower⟩, found, rfl⟩ := Option.map_eq_some_iff.1 goes
    have all := List.forall_mem_cons.2 ⟨first, others⟩
    exact forall_deliver (fun continuation below => all continuation ((unwind_suffix found).mem below))
      (leaves value rfl)

/-- A return leaves the innermost call, and nothing else changes the memory after an attempt. -/
theorem vacate_cases (release : Memory → ScopeId → Stack → Memory) (memory : Memory) (stack : Stack)
    (ended : Except Interrupt Flow) :
    vacate release memory stack ended = memory ∨
      ∃ callee left, vacate release memory stack ended = release memory callee left := by
  unfold vacate
  split
  · split
    · exact .inr ⟨_, _, rfl⟩
    · exact .inl rfl
  · exact .inl rfl

end Stack

/-- What the memory and all work on the stack keep where calls are entered and left, and where loops come back to
their conditions, holds in front of the next statement. -/
theorem Memory.settleWith_keeps {release : Memory → ScopeId → Stack → Memory} (state : Memory → Prop)
    (holds : Continuation → Prop)
    (enters : ∀ memory closure arguments, state memory → holds (.entering closure arguments) →
      state (memory.enter closure arguments).2 ∧
        holds (.running (.body closure (memory.enter closure arguments).1)))
    (rechecks : ∀ activity loop, activity.sequel = .recheck loop → holds (.running activity) →
      holds (.running (.header loop activity.scope)))
    (returns : ∀ memory callee stack, state memory → state (release memory callee stack))
    (delivers : ∀ continuation, holds continuation → holds (continuation.deliver .none))
    {memory : Memory} {stack : Stack} (good : state memory)
    (all : ∀ continuation ∈ stack, holds continuation) :
    state (memory.settleWith release stack).memory ∧
      ∀ continuation ∈ (memory.settleWith release stack).stack, holds continuation := by
  induction memory, stack using Memory.settleWith.induct release with
  | case1 memory =>
    rw [settleWith_nil]
    exact ⟨good, all⟩
  | case2 memory closure arguments rest scope larger entered ih =>
    rw [List.forall_mem_cons] at all
    have body := enters memory closure arguments good all.1
    rw [settleWith_entering, entered]
    rw [entered] at body
    exact ih body.1 (List.forall_mem_cons.2 ⟨body.2, all.2⟩)
  | case3 memory activity rest node current =>
    rw [settleWith_statement current]
    exact ⟨good, all⟩
  | case4 memory activity rest sequel spent ih =>
    rw [settleWith_nothing spent sequel]
    exact ih good (List.forall_mem_cons.1 all).2
  | case5 memory activity rest loop sequel spent =>
    rw [List.forall_mem_cons] at all
    rw [settleWith_recheck spent sequel]
    exact ⟨good, List.forall_mem_cons.2 ⟨rechecks activity loop sequel all.1, all.2⟩⟩
  | case6 memory activity rest sequel spent delivered ih =>
    rw [settleWith_return spent sequel]
    exact ih (returns memory activity.scope delivered good)
      (Stack.forall_deliver (List.forall_mem_cons.1 all).2 delivers)

namespace Machine

variable {σ : Type} {machine : Machine σ}

/-- What holds of the memory and the stack holds after a step, if it holds at the end of the program and wherever an
attempt at the next statement leads. -/
theorem step_keeps (kept : Memory → Stack → Prop) (before : kept machine.memory machine.stack)
    (ends : machine.settled.next = none → kept (machine.settled.memory.collect []) [])
    (runs : ∀ activity node rest, machine.settled.next = some (activity, node, rest) →
      let reached := machine.attempt machine.settled.memory activity node
      let waiting : Activity := { activity with replay := reached.2.replay }
      kept reached.2.memory [] ∧
        ∀ stack, Stack.proceed waiting rest reached.1 = some stack →
          kept (Stack.vacate Memory.release reached.2.memory (.running waiting :: rest) reached.1) stack) :
    kept machine.step.machine.memory machine.step.machine.stack := by
  by_cases running : machine.status = .running
  · cases next : machine.settled.next with
    | none =>
      rw [step_eq running, next]
      exact ends next
    | some upcoming =>
      obtain ⟨activity, node, rest⟩ := upcoming
      obtain ⟨fails, goes⟩ := runs activity node rest next
      rw [step_of_next running next]
      dsimp only
      split
      · rename_i stack proceeds
        exact goes stack proceeds
      · exact fails
  · rw [step_of_idle running]
    exact before

section
variable (state : Memory → Prop)
  (installs : ∀ memory name native, state memory → state (memory.install name native))
  (provides : ∀ memory json value heap name, state memory → Value.ofJson memory.heap json = some (value, heap) →
    state (Memory.assign { memory with heap := heap } Arena.global name value))
include installs provides

theorem bind_keeps (span : Span) (globals : Globals σ) {memory last : Memory}
    {hosts provided : Array (HostFunction σ)} (good : state memory)
    (bound : bind span (memory, hosts) globals = .ok (last, provided)) : state last := by
  induction globals generalizing memory hosts with
  | nil =>
    cases bound
    exact good
  | cons first rest ih =>
    obtain ⟨name, json | run⟩ := first
    · rw [bind] at bound
      cases made : Value.ofJson memory.heap json with
      | none =>
        rw [made] at bound
        cases bound
      | some found =>
        rw [made] at bound
        exact ih (provides memory json found.1 found.2 name good made) bound
    · rw [bind] at bound
      exact ih (installs memory name _ good) bound

theorem ofProgram_keeps (initial : state .initial) {program : Block} {globals : Globals σ} {host : σ}
    (ready : ofProgram program globals host = .ok machine) : state machine.memory := by
  unfold ofProgram at ready
  obtain ⟨⟨memory, hosts⟩, bound, made⟩ := except_bind_ok ready
  cases made
  exact bind_keeps state installs provides program.span globals
    (installs _ "len" .length (installs _ "print" .print initial)) bound

end

/-- What holds of the memory and the stack at the beginning and is kept by every step holds of every state that a
program can come to. -/
theorem Reached.keeps {program : Block} {calls : List Call} (reached : Reached program machine calls)
    (kept : Memory → Stack → Prop)
    (starts : ∀ (start : Machine σ) (globals : Globals σ) (host : σ),
      ofProgram program globals host = .ok start → kept start.memory start.stack)
    (steps : ∀ before : Machine σ, kept before.memory before.stack →
      kept before.step.machine.memory before.step.machine.stack) :
    kept machine.memory machine.stack := by
  induction reached with
  | start ready => exact starts _ _ _ ready
  | turn limit before ih =>
    unfold Machine.turn
    split
    · exact ih
    · exact steps _ ih
  | on kind before ih => exact ih
  | load kinds before ih => exact ih

end Machine

end TabScript
