import TabScript.Proofs.Replay.Order
import TabScript.Proofs.Stack.Passage

/-! The stack as one segment of work for the program and one for every active call.

A segment ends with the body of its call. Below it stands the statement that asked for the call, with
an empty slot for the result. -/

set_option autoImplicit false

namespace TabScript

mutual

/-- How deeply blocks are nested in a statement. The body of a function is no part of the statement
that defines it. -/
def Node.depth : Node → Nat
  | .choice _ _ body others otherwise => max body.depth (max (Branch.depths others)
      (Block.depth? otherwise)) + 1
  | .loop _ _ body => body.depth + 1
  | _ => 0

def Block.depth : Block → Nat
  | .of _ statements => Node.depths statements

def Branch.depth : Branch → Nat
  | .of _ body => body.depth

def Node.depths : List Node → Nat
  | [] => 0
  | node :: nodes => max node.depth (Node.depths nodes)

def Branch.depths : List Branch → Nat
  | [] => 0
  | branch :: others => max branch.depth (Branch.depths others)

def Block.depth? : Option Block → Nat
  | none => 0
  | some block => block.depth

end

def Node.blocks : Node → List Block
  | .choice _ _ body others otherwise => body :: others.map Branch.body ++ otherwise.toList
  | .loop _ _ body => [body]
  | _ => []

structure Call where
  closure : Closure
  arguments : List Value

/-- The statements to run for a call, or for the program itself. -/
def Call.body (program : List Node) : Option Call → List Node
  | none => program
  | some call => call.closure.body

/-- The part of the stack that stands for one call, or for the program itself. -/
inductive Segment where
  | pending (call : Call)
  | active (owner : Option Call) (scope : ScopeId) (activities : List Activity)

namespace Segment

def continuations : Segment → Stack
  | pending call => [.entering call.closure call.arguments]
  | active _ _ activities => activities.map Continuation.running

def call? : Segment → Option Call
  | pending call => some call
  | active owner _ _ => owner

/-- Where the work of the segment is done. A call that is not entered has no scope of its own. -/
def scope : Segment → ScopeId
  | pending call => call.closure.scope
  | active _ scope _ => scope

end Segment

abbrev Stack.join (segments : List Segment) : Stack := segments.flatMap Segment.continuations

namespace Activity

def reach (activity : Activity) : Nat :=
  max
    (match activity.work with
      | .statements remaining => Node.depths remaining
      | .header loop => loop.depth - 1)
    (match activity.sequel with
      | .recheck loop => loop.depth - 1
      | _ => 0)

/-- The statement was left at a call: an attempt from its start asked for it, the memory is the one of
that attempt, and the slot for the result is still empty. -/
structure Awaits (σ : Type) (activity : Activity) (call : Call) : Prop where
  asked : ∃ node, activity.current? = some node ∧
    ∃ (surroundings : Surroundings σ) (before after : Progress σ),
      surroundings.scope = activity.scope ∧ before.replay.cursor = 0 ∧
      Evaluation.exec surroundings node before =
        (.error (.suspend call.closure call.arguments), after) ∧
      after.replay = activity.replay
  slot : ∃ slot stop, activity.replay.waiting = some (slot, stop) ∧
    activity.replay.slots[slot]? = some none

/-- Work of a segment with room for the blocks above it. -/
structure Fits (scope : ScopeId) (depth : Nat) (below : List Activity) (activity : Activity) :
    Prop where
  scope_eq : activity.scope = scope
  reach_le : activity.reach + below.length ≤ depth
  sound : activity.replay.Sound

/-- The work of a segment: blocks and loops one inside the other, above the body of its call if it has
one. Only this body is where a return ends. -/
inductive Stand (owner : Option Call) (scope : ScopeId) (depth : Nat) : List Activity → Prop where
  | program (unowned : owner = none) : Stand owner scope depth []
  | body {call : Call} {activity : Activity} {remaining : List Node} (owned : owner = some call)
    (work : activity.work = .statements remaining) (part : remaining <:+ call.closure.body)
    (ends : activity.sequel = .return) (fits : activity.Fits scope depth []) :
    Stand owner scope depth [activity]
  | inner {activity : Activity} {below : List Activity} (stays : activity.sequel ≠ .return)
    (fits : activity.Fits scope depth below) (rest : Stand owner scope depth below) :
    Stand owner scope depth (activity :: below)

/-- Nothing waits but the top, and this only for the call above. -/
def Wait (σ : Type) (above : Option Call) (activities : List Activity) : Prop :=
  match above with
  | none => ∀ activity ∈ activities, activity.replay.waiting = none
  | some call => ∃ top below, activities = top :: below ∧ top.Awaits σ call ∧
      ∀ activity ∈ below, activity.replay.waiting = none

end Activity

/-- Segments of the active calls, the innermost first, and of the program below them all. Each waits
for the call above it. -/
inductive Segment.Shape (σ : Type) (program : List Node) : Option Call → List Segment → Prop where
  | program {above : Option Call} {activities : List Activity}
    (stand : Activity.Stand none Arena.global (Node.depths program) activities)
    (wait : Activity.Wait σ above activities) :
    Shape σ program above [.active none Arena.global activities]
  | active {above : Option Call} {call : Call} {scope : ScopeId} {activities : List Activity}
    {below : List Segment}
    (stand : Activity.Stand (some call) scope (Node.depths call.closure.body) activities)
    (wait : Activity.Wait σ above activities) (rest : Shape σ program (some call) below) :
    Shape σ program above (.active (some call) scope activities :: below)
  | pending {call : Call} {below : List Segment}
    (fits : call.closure.parameters.length = call.arguments.length)
    (rest : Shape σ program (some call) below) :
    Shape σ program none (.pending call :: below)

namespace Activity

/-- The result of the call is in the slot that waited for it. -/
def answered (activity : Activity) (slot stop : Nat) (value : Value) : Activity :=
  { activity with
    replay := ⟨activity.replay.slots.setIfInBounds slot (some ⟨value, stop⟩),
      activity.replay.cursor, none, true⟩ }

theorem Awaits.slot_answered {σ : Type} {activity : Activity} {call : Call} {slot stop : Nat}
    (awaits : activity.Awaits σ call) (waits : activity.replay.waiting = some (slot, stop))
    (value : Value) :
    (activity.answered slot stop value).replay.slots[slot]? = some (some ⟨value, stop⟩) := by
  obtain ⟨place, behind, waits', empty⟩ := awaits.slot
  cases waits.symm.trans waits'
  simp [answered, (Array.getElem?_eq_some_iff.1 empty).1]

/-- The work on top makes way for work that has not begun. What is below it stays as it is. -/
def Moves (activities changed : List Activity) : Prop :=
  ∃ top new below, activities = top :: below ∧ changed = new ++ below ∧
    ∀ activity ∈ new, activity.replay = .fresh

end Activity

/-- The innermost call is taken away whole. Its result goes into the empty slot of the statement below, which
asked for it, and nothing else changes. -/
inductive Segment.Answers (σ : Type) (value : Value) : List Segment → List Segment → Prop where
  | intro {call : Call} {callee scope : ScopeId} {owner : Option Call} {ended activities : List Activity}
    {caller : Activity} {slot stop : Nat} {below : List Segment} (awaits : caller.Awaits σ call)
    (waits : caller.replay.waiting = some (slot, stop)) :
    Answers σ value (.active (some call) callee ended :: .active owner scope (caller :: activities) :: below)
      (.active owner scope (caller.answered slot stop value :: activities) :: below)

/-- How the segments change along the way. Only the statement on top works: when it is done, other work takes
its place, and when it asks for a call, the call stands above it and what it knows by then is kept. A call that
returns gives its result to the statement below. -/
inductive Segment.Passes (σ : Type) : List Segment → List Passage → List Segment → Prop where
  | done (segments : List Segment) : Passes σ segments [] segments
  | inside {owner : Option Call} {scope : ScopeId} {activities changed : List Activity}
    {below final : List Segment} {passages : List Passage} (moves : Activity.Moves activities changed)
    (rest : Passes σ (.active owner scope changed :: below) passages final) :
    Passes σ (.active owner scope activities :: below) passages final
  | entered {call : Call} {scope : ScopeId} {below final : List Segment} {passages : List Passage}
    (rest : Passes σ (.active (some call) scope [.body call.closure scope] :: below)
      passages final) :
    Passes σ (.pending call :: below) (.entered scope :: passages) final
  | called {call : Call} {owner : Option Call} {scope : ScopeId} {top : Activity} {replay : Replay}
    {activities : List Activity} {below final : List Segment} {passages : List Passage}
    (recalls : top.replay.Recalls replay) (awaits : Activity.Awaits σ { top with replay } call)
    (rest : Passes σ
      (.pending call :: .active owner scope ({ top with replay } :: activities) :: below) passages final) :
    Passes σ (.active owner scope (top :: activities) :: below)
      (.called call.closure call.arguments :: passages) final
  | returned {value : Value} {segments between final : List Segment} {passages : List Passage}
    (answers : Answers σ value segments between) (rest : Passes σ between passages final) :
    Passes σ segments (.returned value :: passages) final

inductive Segment.Ready (σ : Type) (program : List Node) :
    Option (Activity × Node × Stack) → List Segment → Prop where
  | spent : Ready σ program none [.active none Arena.global []]
  | statement {owner : Option Call} {scope : ScopeId} {activity : Activity} {node : Node}
    {below : List Activity} {lower : List Segment} (current : activity.current? = some node)
    (shape : Shape σ program none (.active owner scope (activity :: below) :: lower)) :
    Ready σ program (some (activity, node, below.map Continuation.running ++ Stack.join lower))
      (.active owner scope (activity :: below) :: lower)

namespace Passage

def isEntry : Passage → Bool
  | entered _ => true
  | _ => false

def isCall : Passage → Bool
  | called .. => true
  | _ => false

def isReturn : Passage → Bool
  | returned _ => true
  | _ => false

end Passage

def Passage.follow (calls : List Call) : Passage → List Call
  | entered _ => calls
  | called closure arguments => ⟨closure, arguments⟩ :: calls
  | returned _ => calls.tail

def Passage.enclose (scopes : List ScopeId) : Passage → List ScopeId
  | entered scope => scope :: scopes
  | called .. => scopes
  | returned _ => scopes.tail

namespace Segment

def opened? : Segment → Option ScopeId
  | active (some _) scope _ => some scope
  | _ => none

variable {σ : Type} {program : List Node}

theorem Passes.append {first second third : List Segment} {before after : List Passage}
    (start : Passes σ first before second) (rest : Passes σ second after third) :
    Passes σ first (before ++ after) third := by
  induction start with
  | done => exact rest
  | inside moves _ ih => exact .inside moves (ih rest)
  | entered _ ih => exact .entered (ih rest)
  | called recalls awaits _ ih => exact .called recalls awaits (ih rest)
  | returned answers _ ih => exact .returned answers (ih rest)

theorem Answers.calls {value : Value} {segments later : List Segment}
    (answers : Answers σ value segments later) :
    later.filterMap call? = (segments.filterMap call?).tail := by
  cases answers
  rfl

theorem Answers.scopes {value : Value} {segments later : List Segment}
    (answers : Answers σ value segments later) :
    later.filterMap opened? = (segments.filterMap opened?).tail := by
  cases answers with
  | @intro _ _ _ owner => cases owner <;> rfl

theorem Passes.calls {segments later : List Segment} {passages : List Passage}
    (passes : Passes σ segments passages later) :
    later.filterMap call? = passages.foldl Passage.follow (segments.filterMap call?) := by
  induction passes with
  | done => rfl
  | inside _ _ ih => exact ih
  | entered _ ih => exact ih
  | called _ _ _ ih => exact ih
  | returned answers _ ih => rw [ih, answers.calls, List.foldl_cons, Passage.follow]

theorem Passes.scopes {segments later : List Segment} {passages : List Passage}
    (passes : Passes σ segments passages later) :
    later.filterMap opened? = passages.foldl Passage.enclose (segments.filterMap opened?) := by
  induction passes with
  | done => rfl
  | @inside owner _ _ _ _ _ _ _ _ ih => cases owner <;> exact ih
  | entered _ ih => exact ih
  | @called _ owner _ _ _ _ _ _ _ _ _ _ ih => cases owner <;> exact ih
  | returned answers _ ih => rw [ih, answers.scopes, List.foldl_cons, Passage.enclose]

end Segment

end TabScript
