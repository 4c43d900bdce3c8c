import TabScript.Proofs.Accounting.Executions

/-! What a stack still has to report.

For each of its calls, and for the program, this is the rest of a statement that was begun, and then more
statements of the same body. All of it is reported for a call before anything is reported for the call below. -/

set_option autoImplicit false

namespace TabScript

structure Debt where
  begun : Option Node
  body : List Node

def Debt.PaidBy : Debt → List Report → Prop
  | ⟨none, body⟩, reports => ∃ course, Execution.AreOf body course ∧ reports = Execution.course course
  | ⟨some node, body⟩, reports => ∃ visits course, Visit.AreProper visits ∧ Execution.AreOf body course ∧
      reports = Visit.reports node 0 visits ++ Execution.course course

def Debt.ArePaidBy : List Debt → List Report → Prop
  | [], reports => reports = []
  | first :: others, reports => ∃ own later, reports = own ++ later ∧ first.PaidBy own ∧
      ArePaidBy others later

def Work.nodes : Work → List Node
  | statements remaining => remaining
  | header loop => [loop]

def Sequel.nodes : Sequel → List Node
  | recheck loop => [loop]
  | _ => []

namespace Activity

def nodes (activity : Activity) : List Node := activity.work.nodes ++ activity.sequel.nodes

structure Serves (activity : Activity) (body : List Node) : Prop where
  within : ∀ node ∈ activity.nodes, node.Within body
  sound : activity.replay.Sound

def begun? (activity : Activity) : Option Node :=
  if activity.replay.waiting.isSome || activity.replay.resumed then activity.current? else none

end Activity

/-- What a stack owes, from its top on. In one body at most the topmost statement was begun. A statement waits
where a call stands above it, and nowhere else; `waits` says so of the top. -/
inductive Stack.Owes (program : List Node) : Bool → Stack → List Debt → Prop where
  | done : Owes program false [] [⟨none, program⟩]
  | inner {activity : Activity} {body : List Node} {rest : Stack} {debts : List Debt} {waits : Bool}
    (stays : activity.sequel ≠ .return) (serves : activity.Serves body)
    (waiting : activity.replay.waiting.isSome = waits)
    (below : Owes program false rest (⟨none, body⟩ :: debts)) :
    Owes program waits (.running activity :: rest) (⟨activity.begun?, body⟩ :: debts)
  | body {activity : Activity} {body remaining : List Node} {rest : Stack} {debts : List Debt}
    {waits : Bool} (work : activity.work = .statements remaining) (ends : activity.sequel = .return)
    (serves : activity.Serves body)
    (waiting : activity.replay.waiting.isSome = waits) (below : Owes program true rest debts) :
    Owes program waits (.running activity :: rest) (⟨activity.begun?, body⟩ :: debts)
  | entering {closure : Closure} {arguments : List Value} {rest : Stack} {debts : List Debt}
    (below : Owes program true rest debts) :
    Owes program false (.entering closure arguments :: rest) (⟨none, closure.body⟩ :: debts)

namespace Debt

variable {debts : List Debt} {body : List Node} {reports : List Report}

theorem ArePaidBy.of_over (paid : ArePaidBy debts reports) : ArePaidBy (⟨none, body⟩ :: debts) reports :=
  ⟨[], reports, rfl, ⟨[], trivial, rfl⟩, paid⟩

theorem ArePaidBy.of_done {node : Node} {resumed : Bool} (within : node.Within body)
    (paid : ArePaidBy (⟨none, body⟩ :: debts) reports) :
    ArePaidBy (⟨if resumed then some node else none, body⟩ :: debts)
      (⟨⟨node.tag, node.span⟩, if resumed then 0 else 1, none⟩ :: reports) := by
  obtain ⟨own, later, rfl, ⟨course, proper, rfl⟩, rest⟩ := paid
  refine ⟨⟨⟨node.tag, node.span⟩, if resumed then 0 else 1, none⟩ :: Execution.course course, later, rfl,
    ?_, rest⟩
  cases resumed with
  | true => exact ⟨[], course, trivial, proper, rfl⟩
  | false => exact ⟨.of node [] :: course, ⟨⟨within, trivial⟩, proper⟩, rfl⟩

theorem ArePaidBy.of_asked {node : Node} {resumed : Bool} {call : Call} (within : node.Within body)
    (paid : ArePaidBy (⟨none, call.closure.body⟩ :: ⟨some node, body⟩ :: debts) reports) :
    ArePaidBy (⟨if resumed then some node else none, body⟩ :: debts)
      (⟨⟨node.tag, node.span⟩, if resumed then 0 else 1, some call⟩ :: reports) := by
  obtain ⟨inner, outer, rfl, ⟨visited, inside, rfl⟩, own, later, rfl,
    ⟨visits, course, onward, proper, rfl⟩, rest⟩ := paid
  have called : Visit.AreProper (.of call visited :: visits) := ⟨inside, onward⟩
  refine ⟨⟨⟨node.tag, node.span⟩, if resumed then 0 else 1, some call⟩ ::
    (Execution.course visited ++ Visit.reports node 0 visits ++ Execution.course course), later, by simp,
    ?_, rest⟩
  cases resumed with
  | true =>
    exact ⟨.of call visited :: visits, course, called, proper, by simp [Visit.reports]⟩
  | false =>
    exact ⟨.of node (.of call visited :: visits) :: course, ⟨⟨within, called⟩, proper⟩,
      by simp [Visit.reports, Execution.course, Execution.reports]⟩

end Debt

section
variable {program body : List Node} {activity : Activity} {node : Node} {rest stack : Stack}
  {begun : Option Node} {debt : Debt} {debts : List Debt} {waits : Bool}

namespace Activity

theorem within_of_current (serves : activity.Serves body) (current : activity.current? = some node) :
    node.Within body := by
  refine serves.within node (List.mem_append_left _ ?_)
  obtain ⟨work, scope, sequel, replay⟩ := activity
  cases work with
  | statements remaining => exact List.mem_of_head? current
  | header loop =>
    cases current
    exact List.mem_singleton.2 rfl

theorem begun?_of_spent (spent : activity.current? = none) : activity.begun? = none := by
  rw [begun?, spent, ite_self]

/-- Without a call above, just the statement that a result was handed to is begun. -/
theorem begun?_of_idle (idle : activity.replay.waiting.isSome = false)
    (current : activity.current? = some node) :
    activity.begun? = if activity.replay.resumed then some node else none := by
  rw [begun?, idle, current, Bool.false_or]

theorem begun?_of_waiting (waiting : activity.replay.waiting.isSome = true) :
    activity.begun? = activity.current? := by
  rw [begun?, waiting, Bool.true_or, if_pos rfl]

theorem idle_deliver (sound : activity.replay.Sound) (waiting : activity.replay.waiting.isSome = true)
    (value : Value) : (activity.replay.deliver value).waiting.isSome = false := by
  obtain ⟨⟨slot, stop⟩, waits⟩ := Option.isSome_iff_exists.1 waiting
  rw [sound.deliver_eq waits]
  rfl

theorem begun?_deliver (sound : activity.replay.Sound) (waiting : activity.replay.waiting.isSome = true)
    (value : Value) :
    begun? { activity with replay := activity.replay.deliver value } = activity.begun? := by
  obtain ⟨⟨slot, stop⟩, waits⟩ := Option.isSome_iff_exists.1 waiting
  rw [begun?_of_waiting waiting, begun?, sound.deliver_eq waits]
  rfl

theorem Serves.tail {remaining : List Node} (serves : activity.Serves body)
    (work : activity.work = .statements remaining) :
    Serves { activity with work := .statements remaining.tail, replay := .fresh } body := by
  refine ⟨fun node inside => serves.within node ?_, Replay.sound_fresh⟩
  rw [nodes, work]
  rcases List.mem_append.1 inside with inside | inside
  · exact List.mem_append_left _ (List.mem_of_mem_tail inside)
  · exact List.mem_append_right _ inside

theorem Serves.block {block : Block} {scope : ScopeId} (within : node.Within body)
    (part : block ∈ node.blocks) : Serves (.block block.statements scope) body := by
  refine ⟨fun other inside => ?_, Replay.sound_fresh⟩
  rcases List.mem_append.1 inside with inside | impossible
  · exact .deeper within part inside
  · cases impossible

theorem Serves.header {loop : Node} (within : loop.Within body) (scope : ScopeId) :
    Serves (.header loop scope) body := by
  refine ⟨fun other inside => ?_, Replay.sound_fresh⟩
  obtain rfl := List.mem_singleton.1 inside
  exact within

theorem serves_body (closure : Closure) (scope : ScopeId) : Serves (.body closure scope) closure.body := by
  refine ⟨fun node inside => ?_, Replay.sound_fresh⟩
  rcases List.mem_append.1 inside with inside | impossible
  · exact .here inside
  · cases impossible

theorem Serves.round {block : Block} {scope : ScopeId} (within : node.Within body)
    (part : block ∈ node.blocks) : Serves (.round block.statements scope node) body := by
  refine ⟨fun other inside => ?_, Replay.sound_fresh⟩
  rcases List.mem_append.1 inside with inside | inside
  · exact .deeper within part inside
  · obtain rfl := List.mem_singleton.1 inside
    exact within

end Activity

namespace Stack

/-- What the memory of the topmost statement matters for is only whether it was begun. -/
theorem Owes.top (owes : Owes program waits (.running activity :: rest) debts) :
    ∃ body others, debts = ⟨activity.begun?, body⟩ :: others ∧ activity.Serves body ∧
      activity.replay.waiting.isSome = waits ∧
      ∀ replay : Replay, replay.Sound →
        Owes program replay.waiting.isSome (.running { activity with replay := replay } :: rest)
          (⟨Activity.begun? { activity with replay := replay }, body⟩ :: others) := by
  cases owes with
  | inner stays serves waiting below =>
    exact ⟨_, _, rfl, serves, waiting, fun replay sound => .inner stays ⟨serves.within, sound⟩ rfl below⟩
  | body work ends serves waiting below =>
    exact ⟨_, _, rfl, serves, waiting, fun replay sound => .body work ends ⟨serves.within, sound⟩ rfl below⟩

theorem Owes.deliver (owes : Owes program true stack debts) (value : Value) :
    Owes program false (deliver value stack) debts := by
  cases owes with
  | @inner activity body rest debts waits stays serves waiting below =>
    have idle := Activity.idle_deliver serves.sound waiting value
    rw [← Activity.begun?_deliver serves.sound waiting value]
    exact .inner stays ⟨serves.within, serves.sound.deliver value⟩ idle below
  | @body activity body remaining rest debts waits work ends serves waiting below =>
    have idle := Activity.idle_deliver serves.sound waiting value
    rw [← Activity.begun?_deliver serves.sound waiting value]
    exact .body work ends ⟨serves.within, serves.sound.deliver value⟩ idle below

theorem Owes.unwind (owes : Owes program waits stack (debt :: debts)) {scope : ScopeId}
    (left : Stack.unwind stack = some (scope, rest)) : Owes program true rest debts := by
  generalize whole : debt :: debts = all at owes
  induction owes generalizing debt with
  | done => cases left
  | inner stays serves waiting below ih =>
    cases whole
    rw [Stack.unwind, Segment.isCall_of_stays stays, if_neg Bool.false_ne_true] at left
    exact ih left rfl
  | body work ends serves waiting below =>
    cases whole
    simp only [Stack.unwind, Continuation.isCall, ends, if_true, Option.some.injEq,
      Prod.mk.injEq] at left
    exact left.2 ▸ below
  | entering below =>
    cases whole
    simp only [Stack.unwind, Continuation.isCall, if_true, Option.some.injEq, Prod.mk.injEq] at left
    exact left.2 ▸ below

theorem Owes.resume (owes : Owes program waits (.running activity :: rest) (⟨begun, body⟩ :: debts))
    (replay : Replay) :
    Owes program false (Stack.resume { activity with replay := replay } rest) (⟨none, body⟩ :: debts) := by
  cases owes with
  | inner stays serves waiting below =>
    rcases Activity.next?_cases { activity with replay := replay } with ⟨done, -⟩ | ⟨remaining, work, goes⟩
    · rw [Stack.resume, done]
      exact below
    · rw [Stack.resume, goes]
      exact .inner stays (serves.tail work) rfl below
  | body work ends serves waiting below =>
    rcases Activity.next?_cases { activity with replay := replay } with ⟨-, header | done⟩ | ⟨remaining, work, goes⟩
    · obtain ⟨loop, impossible⟩ := header
      rw [work] at impossible
      cases impossible
    · rw [ends] at done
      cases done
    · rw [Stack.resume, goes]
      exact .body rfl ends (serves.tail work) rfl below

theorem Owes.settle (release : Memory → ScopeId → Stack → Memory) (memory : Memory)
    (owes : Owes program false stack debts) :
    ∃ left, Owes program false (memory.settleWith release stack).stack left ∧
      ∀ reports, Debt.ArePaidBy left reports → Debt.ArePaidBy debts reports := by
  induction memory, stack using Memory.settleWith.induct release generalizing debts with
  | case1 memory =>
    rw [Memory.settleWith_nil]
    exact ⟨debts, owes, fun _ paid => paid⟩
  | case2 memory closure arguments rest scope larger entered ih =>
    rw [Memory.settleWith_entering, entered]
    cases owes with
    | entering below => exact ih (.body rfl rfl (Activity.serves_body closure scope) rfl below)
  | case3 memory activity rest node current =>
    rw [Memory.settleWith_statement current]
    exact ⟨debts, owes, fun _ paid => paid⟩
  | case4 memory activity rest sequel spent ih =>
    rw [Memory.settleWith_nothing spent sequel]
    cases owes with
    | inner stays serves waiting below =>
      rw [Activity.begun?_of_spent spent]
      exact ih below
    | body work ends =>
      rw [sequel] at ends
      cases ends
  | case5 memory activity rest loop sequel spent =>
    rw [Memory.settleWith_recheck spent sequel]
    cases owes with
    | @inner _ body _ debts _ stays serves waiting below =>
      -- the loop is a statement of the body that is owed, so its next round is owed with it
      have within : loop.Within body := by
        refine serves.within loop (List.mem_append_right _ ?_)
        rw [sequel]
        exact List.mem_singleton.2 rfl
      rw [Activity.begun?_of_spent spent]
      exact ⟨_, .inner (by simp [Activity.header]) (.header within activity.scope) rfl below,
        fun _ paid => paid⟩
    | body work ends =>
      rw [sequel] at ends
      cases ends
  | case6 memory activity rest sequel spent delivered =>
    rename_i ih
    rw [Memory.settleWith_return spent sequel]
    cases owes with
    | inner stays => exact absurd sequel stays
    | body work ends serves waiting below =>
      rw [Activity.begun?_of_spent spent]
      obtain ⟨left, owes, pays⟩ := ih (below.deliver .none)
      exact ⟨left, owes, fun reports paid => (pays reports paid).of_over⟩

end Stack

def Passage.asked? : Except Interrupt Flow → Option Call
  | .error (.suspend closure arguments) => some ⟨closure, arguments⟩
  | _ => none

/-- A step reports the statement that it ran, and this pays a part of what is owed. -/
theorem Stack.Owes.proceed {σ : Type} {surroundings : Surroundings σ} {before : Progress σ} {left : Stack}
    (owes : Owes program false (.running activity :: rest) debts) (current : activity.current? = some node)
    (start : before.replay = activity.replay.rewind)
    (goes : Stack.proceed { activity with replay := (Evaluation.exec surroundings node before).2.replay }
      rest (Evaluation.exec surroundings node before).1 = some left) :
    ∃ later, Owes program false left later ∧ ∀ reports, Debt.ArePaidBy later reports →
      Debt.ArePaidBy debts (⟨⟨node.tag, node.span⟩, if activity.replay.resumed then 0 else 1,
        Passage.asked? (Evaluation.exec surroundings node before).1⟩ :: reports) := by
  obtain ⟨body, others, rfl, serves, idle, change⟩ := owes.top
  have within := Activity.within_of_current serves current
  rw [Activity.begun?_of_idle idle current]
  have quiet : before.replay.waiting = none := by
    rw [start]
    exact Option.isNone_iff_eq_none.1 (Option.isSome_eq_false_iff.1 idle)
  have keeps := Evaluation.orderly_exec surroundings node before (start ▸ serves.sound.rewind) quiet
  rcases reached : Evaluation.exec surroundings node before with ⟨flow, after⟩
  rw [reached] at keeps goes
  rcases flow with (fault | ⟨closure, arguments⟩) | (_ | inner | value)
  · cases goes
  · cases goes
    obtain ⟨-, extends_, waiting⟩ := keeps
    have asked := waiting rfl
    have same : Activity.current? { activity with replay := after.replay } = some node := current
    have waits := change after.replay extends_.sound
    rw [asked, Activity.begun?_of_waiting asked, same] at waits
    exact ⟨_, .entering waits, fun reports paid => .of_asked within paid⟩
  · cases goes
    exact ⟨_, owes.resume after.replay, fun reports paid => .of_done within paid⟩
  · cases goes
    obtain ⟨block, part, rfl | rfl⟩ := Evaluation.exec_enter_block reached
    · exact ⟨_, .inner (by simp [Activity.block]) (.block within part) rfl (owes.resume after.replay),
        fun reports paid => .of_done within paid⟩
    · exact ⟨_, .inner (by simp [Activity.round]) (.round within part) rfl (owes.resume after.replay),
        fun reports paid => .of_done within paid⟩
  · obtain ⟨⟨scope, callers⟩, unwound, rfl⟩ := Option.map_eq_some_iff.1 goes
    have below := (change after.replay keeps.1.sound).unwind unwound
    exact ⟨_, below.deliver value, fun reports paid => .of_done within paid.of_over⟩

end

end TabScript
