import TabScript.Proofs.Stack.Segment

/-! Every attempt at a statement, and everything that is done between two of them, keeps the stack in
segments. -/

set_option autoImplicit false

namespace TabScript

variable {σ : Type}

namespace Evaluation

theorem bind_ok {α β : Type} {first : Evaluation σ α} {next : α → Evaluation σ β}
    {before after : Progress σ} {result : β} (reached : (first >>= next) before = (.ok result, after)) :
    ∃ value middle, first before = (.ok value, middle) ∧ next value middle = (.ok result, after) := by
  rw [bind_apply] at reached
  rcases start : first before with ⟨interrupt | value, middle⟩
  · rw [start] at reached
    cases reached
  · rw [start] at reached
    exact ⟨value, middle, rfl, reached⟩

theorem firstBranch_mem {surroundings : Surroundings σ} {branches : List Branch}
    {before after : Progress σ} {block : Block}
    (reached : firstBranch surroundings branches before = (.ok (some block), after)) :
    block ∈ branches.map Branch.body := by
  induction branches generalizing before with
  | nil => cases reached
  | cons branch others ih =>
    obtain ⟨truth, middle, -, rest⟩ := bind_ok reached
    cases truth with
    | true =>
      have chosen : branch.body = block := by cases rest; rfl
      exact chosen ▸ List.mem_cons_self
    | false => exact List.mem_cons_of_mem _ (ih rest)

/-- A statement enters one of its blocks, and a loop comes back to itself when the block is done. -/
theorem exec_enter_block {surroundings : Surroundings σ} {node : Node} {before after : Progress σ}
    {inner : Activity} (entered : exec surroundings node before = (.ok (.enter inner), after)) :
    ∃ block ∈ node.blocks, inner = .block block.statements surroundings.scope ∨
      inner = .round block.statements surroundings.scope node := by
  cases node with
  | choice span first body others otherwise =>
    obtain ⟨chosen, middle, found, rest⟩ := bind_ok entered
    cases chosen with
    | some block =>
      have within := firstBranch_mem found
      cases rest
      exact ⟨block, List.mem_append_left _ within, .inl rfl⟩
    | none =>
      cases otherwise with
      | none => cases rest
      | some block =>
        cases rest
        exact ⟨block, by simp [Node.blocks], .inl rfl⟩
  | loop span header body =>
    obtain ⟨truth, middle, -, rest⟩ := bind_ok entered
    cases truth with
    | false => cases rest
    | true =>
      cases rest
      exact ⟨body, List.mem_singleton.2 rfl, .inr rfl⟩
  | result span value =>
    cases value with
    | none => cases entered
    | some value =>
      obtain ⟨_, _, _, rest⟩ := bind_ok entered
      cases rest
  | pass => cases entered
  | assignment | definition | deletion | literal | identifier | unary | binary | call | element
  | slice | array =>
    obtain ⟨_, _, _, rest⟩ := bind_ok entered
    cases rest

end Evaluation

theorem Block.depths_statements (block : Block) : Node.depths block.statements = block.depth := by
  cases block with
  | of span statements => rw [Block.depth, Block.statements]

theorem Branch.depth_le {branches : List Branch} {branch : Branch} (inside : branch ∈ branches) :
    branch.body.depth ≤ Branch.depths branches := by
  induction branches with
  | nil => cases inside
  | cons first others ih =>
    rw [Branch.depths]
    rcases List.mem_cons.1 inside with rfl | further
    · cases branch with
      | of condition body =>
        simp only [Branch.depth, Branch.body]
        omega
    · have deeper := ih further
      omega

theorem Node.depth_of_blocks {node : Node} {block : Block} (inside : block ∈ node.blocks) :
    block.depth < node.depth := by
  cases node with
  | choice span condition body others otherwise =>
    rw [Node.depth]
    simp only [Node.blocks, List.mem_append, List.mem_cons, List.mem_map, Option.mem_toList] at inside
    rcases inside with (rfl | ⟨branch, further, rfl⟩) | last
    · omega
    · have deep := Branch.depth_le further
      omega
    · obtain rfl : otherwise = some block := last
      rw [Block.depth?]
      omega
  | loop span condition body =>
    obtain rfl := List.mem_singleton.1 inside
    rw [Node.depth]
    omega
  | _ => cases inside

theorem Evaluation.exec_enter {surroundings : Surroundings σ} {node : Node} {before after : Progress σ}
    {inner : Activity} (entered : exec surroundings node before = (.ok (.enter inner), after)) :
    inner.scope = surroundings.scope ∧ inner.replay = .fresh ∧ inner.sequel ≠ .return ∧
      inner.reach < node.depth := by
  obtain ⟨block, inside, rfl | rfl⟩ := exec_enter_block entered
  all_goals
    have deeper := Node.depth_of_blocks inside
    refine ⟨rfl, rfl, by simp [Activity.block, Activity.round], ?_⟩
  · simp only [Activity.reach, Activity.block, block.depths_statements]
    omega
  · simp only [Activity.reach, Activity.round, block.depths_statements]
    omega

namespace Activity

variable {owner : Option Call} {scope : ScopeId} {depth : Nat} {activity : Activity}
  {below : List Activity}

theorem Stand.length_le {activities : List Activity} (stand : Stand owner scope depth activities) :
    activities.length ≤ depth + 1 := by
  cases stand with
  | program => exact Nat.zero_le _
  | body => simp
  | inner _ fits =>
    have room := fits.reach_le
    simp only [List.length_cons]
    omega

theorem Stand.fits (stand : Stand owner scope depth (activity :: below)) :
    activity.Fits scope depth below := by
  cases stand with
  | body _ _ _ _ fits => exact fits
  | inner _ fits _ => exact fits

theorem Moves.idle {activities changed : List Activity} (moves : Moves activities changed)
    (idle : ∀ activity ∈ activities, activity.replay.waiting = none) :
    ∀ activity ∈ changed, activity.replay.waiting = none := by
  obtain ⟨top, new, below, rfl, rfl, fresh⟩ := moves
  intro activity inside
  rcases List.mem_append.1 inside with inside | inside
  · rw [fresh activity inside]
    rfl
  · exact idle activity (List.mem_cons_of_mem _ inside)

theorem Moves.enter {activities changed : List Activity} {inner : Activity}
    (moves : Moves activities changed) (new : inner.replay = .fresh) :
    Moves activities (inner :: changed) := by
  obtain ⟨top, first, below, rfl, rfl, fresh⟩ := moves
  exact ⟨top, inner :: first, below, rfl, rfl, List.forall_mem_cons.2 ⟨new, fresh⟩⟩

theorem Stand.withReplay {replay : Replay} (stand : Stand owner scope depth (activity :: below))
    (sound : replay.Sound) :
    Stand owner scope depth ({ activity with replay := replay } :: below) := by
  have fits := stand.fits
  have fits' : Fits scope depth below { activity with replay := replay } :=
    ⟨fits.scope_eq, fits.reach_le, sound⟩
  cases stand with
  | body owned work part ends _ => exact .body owned work part ends fits'
  | inner stays _ rest => exact .inner stays fits' rest

theorem Stand.advance {first : Node} {remaining : List Node}
    (stand : Stand owner scope depth (activity :: below))
    (work : activity.work = .statements (first :: remaining)) :
    Stand owner scope depth
      ({ activity with work := .statements remaining, replay := .fresh } :: below) := by
  have fits := stand.fits
  have room := fits.reach_le
  have fits' : Fits scope depth below
      { activity with work := .statements remaining, replay := .fresh } := by
    refine ⟨fits.scope_eq, ?_, Replay.sound_fresh⟩
    simp only [reach, work, Node.depths] at room ⊢
    omega
  cases stand with
  | body owned work' part ends _ =>
    rw [work] at work'
    cases work'
    exact .body owned rfl ((List.suffix_cons _ _).trans part) ends fits'
  | inner stays _ rest => exact .inner stays fits' rest

theorem Stand.scope_eq {activities : List Activity} (stand : Stand owner scope depth activities) :
    ∀ continuation ∈ activities.map Continuation.running, continuation.scope = scope := by
  induction stand with
  | program => simp
  | body _ _ _ _ fits => simp [Continuation.scope, fits.scope_eq]
  | inner _ fits _ ih =>
    intro continuation inside
    rcases List.mem_cons.1 inside with rfl | inside
    · exact fits.scope_eq
    · exact ih continuation inside

theorem Stand.below_of_stays (stand : Stand owner scope depth (activity :: below))
    (stays : activity.sequel ≠ .return) : Stand owner scope depth below := by
  cases stand with
  | body _ _ _ ends _ => exact absurd ends stays
  | inner _ _ rest => exact rest

theorem Stand.of_return (stand : Stand owner scope depth (activity :: below))
    (ends : activity.sequel = .return) :
    below = [] ∧ (∃ call, owner = some call) ∧ ∃ remaining, activity.work = .statements remaining := by
  cases stand with
  | body owned work _ _ _ => exact ⟨rfl, ⟨_, owned⟩, _, work⟩
  | inner stays _ _ => exact absurd ends stays

theorem stand_body (call : Call) (scope : ScopeId) :
    Stand (some call) scope (Node.depths call.closure.body) [.body call.closure scope] := by
  refine .body rfl rfl (List.suffix_refl _) rfl ⟨rfl, ?_, Replay.sound_fresh⟩
  simp [Activity.reach, Activity.body]

/-- What is left when a statement is done, with room above it for a block inside the statement. -/
theorem Stand.resume {node : Node} (stand : Stand owner scope depth (activity :: below))
    (current : activity.current? = some node) (replay : Replay) (rest : Stack) :
    ∃ left, Stand owner scope depth left ∧
      Stack.resume { activity with replay := replay } (below.map Continuation.running ++ rest) =
        left.map Continuation.running ++ rest ∧
      Moves (activity :: below) left ∧
      ∀ reach < node.depth, reach + left.length ≤ depth := by
  obtain ⟨work, place, sequel, old⟩ := activity
  have room := stand.fits.reach_le
  cases work with
  | header loop =>
    obtain rfl : loop = node := Option.some.inj current
    simp only [reach] at room
    have stays : sequel ≠ .return := by
      intro ends
      obtain ⟨-, -, remaining, impossible⟩ := stand.of_return ends
      cases impossible
    refine ⟨below, stand.below_of_stays stays, rfl, ⟨_, [], below, rfl, rfl, by simp⟩, ?_⟩
    intro reach less
    omega
  | statements remaining =>
    cases remaining with
    | nil => cases current
    | cons first remaining =>
      obtain rfl : first = node := Option.some.inj current
      simp only [reach, Node.depths] at room
      -- work that ends with this statement and has nothing after it is dropped at once, which leaves its room
      by_cases spent : remaining = [] ∧ sequel = .nothing
      · obtain ⟨rfl, rfl⟩ := spent
        refine ⟨below, stand.below_of_stays (by simp), rfl, ⟨_, [], below, rfl, rfl, by simp⟩, ?_⟩
        intro reach less
        omega
      · refine ⟨⟨.statements remaining, place, sequel, .fresh⟩ :: below, ?_, ?_,
          ⟨_, [_], below, rfl, rfl, by simp⟩, ?_⟩
        · exact stand.advance rfl
        · have kept : Activity.next? ⟨.statements (first :: remaining), place, sequel, replay⟩ =
              some ⟨.statements remaining, place, sequel, .fresh⟩ := by
            simp only [Activity.next?, List.tail_cons]
            split
            · rename_i last
              exact absurd ⟨rfl, rfl⟩ spent
            · rfl
          simp [Stack.resume, kept]
        · intro reach less
          simp only [List.length_cons]
          omega

end Activity

namespace Segment

open Activity (Stand Wait)

variable {program : List Node} {above : Option Call} {owner : Option Call} {scope : ScopeId}
  {activity : Activity} {activities below : List Activity} {lower : List Segment}

theorem Shape.top (shape : Shape σ program above (.active owner scope activities :: lower)) :
    Stand owner scope (Node.depths (Call.body program owner)) activities ∧ Wait σ above activities ∧
      ∀ (now : Option Call) (changed : List Activity),
        Stand owner scope (Node.depths (Call.body program owner)) changed → Wait σ now changed →
          Shape σ program now (.active owner scope changed :: lower) := by
  cases shape with
  | program stand wait => exact ⟨stand, wait, fun now changed => .program⟩
  | active stand wait rest => exact ⟨stand, wait, fun now changed stand wait => .active stand wait rest⟩

theorem Shape.calls {segments : List Segment} (shape : Shape σ program above segments) :
    segments.map call? = (segments.filterMap call?).map some ++ [none] := by
  induction shape with
  | program => rfl
  | active stand wait rest ih => simp [call?, ih]
  | pending fits rest ih => simp [call?, ih]

theorem Shape.scope_eq {segments : List Segment} (shape : Shape σ program above segments) :
    ∀ segment ∈ segments, ∀ continuation ∈ segment.continuations,
      continuation.scope = segment.scope := by
  induction shape with
  | program stand wait =>
    intro segment inside
    obtain rfl := List.mem_singleton.1 inside
    exact stand.scope_eq
  | active stand wait rest ih =>
    intro segment inside
    rcases List.mem_cons.1 inside with rfl | inside
    · exact stand.scope_eq
    · exact ih segment inside
  | pending fits rest ih =>
    intro segment inside
    rcases List.mem_cons.1 inside with rfl | inside
    · intro continuation place
      obtain rfl := List.mem_singleton.1 place
      rfl
    · exact ih segment inside

theorem Shape.length_le {segments : List Segment} (shape : Shape σ program above segments) :
    ∀ segment ∈ segments,
      segment.continuations.length ≤ 1 + Node.depths (Call.body program segment.call?) := by
  induction shape with
  | program stand wait =>
    intro segment inside
    obtain rfl := List.mem_singleton.1 inside
    have bound := stand.length_le
    simpa [continuations, call?, Call.body, Nat.add_comm] using bound
  | active stand wait rest ih =>
    intro segment inside
    rcases List.mem_cons.1 inside with rfl | inside
    · have bound := stand.length_le
      simpa [continuations, call?, Call.body, Nat.add_comm] using bound
    · exact ih segment inside
  | pending fits rest ih =>
    intro segment inside
    rcases List.mem_cons.1 inside with rfl | inside
    · simp [continuations]
    · exact ih segment inside

theorem Shape.answer {call : Call} {segments : List Segment}
    (shape : Shape σ program (some call) segments) :
    ∃ owner scope caller activities lower slot stop,
      segments = .active owner scope (caller :: activities) :: lower ∧ caller.Awaits σ call ∧
      caller.replay.waiting = some (slot, stop) ∧
      ∀ value,
        Stack.deliver value (Stack.join segments) =
          Stack.join (.active owner scope (caller.answered slot stop value :: activities) :: lower) ∧
        Shape σ program none
          (.active owner scope (caller.answered slot stop value :: activities) :: lower) := by
  have active : ∃ owner scope activities lower,
      segments = .active owner scope activities :: lower := by
    cases shape with
    | program => exact ⟨_, _, _, _, rfl⟩
    | active => exact ⟨_, _, _, _, rfl⟩
  obtain ⟨owner, scope, activities, lower, rfl⟩ := active
  obtain ⟨stand, ⟨caller, below, rfl, awaits, idle⟩, change⟩ := shape.top
  -- the caller is on top of its segment, so the value cannot go anywhere else
  obtain ⟨slot, stop, waits, -⟩ := awaits.slot
  have sound := stand.fits.sound
  refine ⟨owner, scope, caller, below, lower, slot, stop, rfl, awaits, waits, fun value => ?_⟩
  have delivered := sound.deliver_eq waits value
  constructor
  · simp [Stack.join, continuations, Stack.deliver, Continuation.deliver, delivered,
      Activity.answered]
  · refine change none _ (stand.withReplay (delivered ▸ sound.deliver value)) ?_
    intro later inside
    rcases List.mem_cons.1 inside with rfl | inside
    · rfl
    · exact idle later inside

theorem Shape.of_join_nil {segments : List Segment} (shape : Shape σ program above segments)
    (stacked : Stack.join segments = []) : segments = [.active none Arena.global []] := by
  cases shape with
  | program stand wait =>
    simp only [Stack.join, List.flatMap_cons, continuations, List.flatMap_nil, List.append_nil,
      List.map_eq_nil_iff] at stacked
    rw [stacked]
  | active stand wait rest =>
    cases stand with
    | program impossible => cases impossible
    | body => simp [Stack.join, continuations] at stacked
    | inner => simp [Stack.join, continuations] at stacked
  | pending => simp [Stack.join, continuations] at stacked

theorem Shape.of_join_entering {segments : List Segment} {closure : Closure} {arguments : List Value}
    {rest : Stack} (shape : Shape σ program above segments)
    (stacked : Stack.join segments = .entering closure arguments :: rest) :
    ∃ lower, segments = .pending ⟨closure, arguments⟩ :: lower ∧ rest = Stack.join lower := by
  cases shape with
  | program stand wait =>
    rename_i activities
    cases activities <;> simp [Stack.join, continuations] at stacked
  | active stand wait below =>
    cases stand with
    | program impossible => cases impossible
    | body => simp [Stack.join, continuations] at stacked
    | inner => simp [Stack.join, continuations] at stacked
  | @pending call lower fits below =>
    simp only [Stack.join, List.flatMap_cons, continuations, List.cons_append, List.nil_append,
      List.cons.injEq, Continuation.entering.injEq] at stacked
    obtain ⟨⟨rfl, rfl⟩, rfl⟩ := stacked
    exact ⟨lower, rfl, rfl⟩

theorem Shape.of_join_running {segments : List Segment} {rest : Stack}
    (shape : Shape σ program above segments)
    (stacked : Stack.join segments = .running activity :: rest) :
    ∃ owner scope below lower, segments = .active owner scope (activity :: below) :: lower ∧
      rest = below.map Continuation.running ++ Stack.join lower := by
  -- a segment that runs has at least one activity, so the top of the stack is the top of the first segment
  have split : ∀ {owner : Option Call} {scope : ScopeId} {activities : List Activity}
      {lower : List Segment}, activities ≠ [] →
      Stack.join (.active owner scope activities :: lower) = .running activity :: rest →
      ∃ below, activities = activity :: below ∧
        rest = below.map Continuation.running ++ Stack.join lower := by
    intro owner scope activities lower some_ joined
    cases activities with
    | nil => exact absurd rfl some_
    | cons top below =>
      simp only [Stack.join, List.flatMap_cons, continuations, List.map_cons, List.cons_append,
        List.cons.injEq, Continuation.running.injEq] at joined
      exact ⟨below, by rw [joined.1], joined.2.symm⟩
  cases shape with
  | program stand wait =>
    obtain ⟨below, rfl, rest_eq⟩ := split (by rintro rfl; simp [Stack.join, continuations] at stacked)
      stacked
    exact ⟨_, _, below, _, rfl, rest_eq⟩
  | active stand wait lower =>
    obtain ⟨below, rfl, rest_eq⟩ := split (by
      rintro rfl
      cases stand with
      | program impossible => cases impossible) stacked
    exact ⟨_, _, below, _, rfl, rest_eq⟩
  | pending => simp [Stack.join, continuations] at stacked

section
variable {segments : List Segment} {rest : Stack} (shape : Shape σ program none segments)
include shape

theorem Shape.enter {closure : Closure} {arguments : List Value}
    (stacked : Stack.join segments = .entering closure arguments :: rest) (scope : ScopeId) :
    ∃ later, Stack.join later = .running (.body closure scope) :: rest ∧
      Shape σ program none later ∧ Passes σ segments [.entered scope] later := by
  obtain ⟨lower, rfl, rfl⟩ := shape.of_join_entering stacked
  cases shape with
  | pending fits below =>
    refine ⟨_, rfl, .active (Activity.stand_body ⟨closure, arguments⟩ scope) ?_ below,
      .entered (.done _)⟩
    simp [Wait, Activity.body, Replay.fresh]

/-- Work that is done makes way for the work below it. -/
theorem Shape.drop (stacked : Stack.join segments = .running activity :: rest)
    (sequel : activity.sequel = .nothing) :
    ∃ later, Stack.join later = rest ∧ Shape σ program none later ∧ Passes σ segments [] later := by
  obtain ⟨owner, scope, below, lower, rfl, rfl⟩ := shape.of_join_running stacked
  obtain ⟨stand, idle, change⟩ := shape.top
  have shape' := change none below (stand.below_of_stays (by simp [sequel]))
    fun later inside => idle later (List.mem_cons_of_mem _ inside)
  exact ⟨_, rfl, shape', .inside ⟨_, [], below, rfl, rfl, by simp⟩ (.done _)⟩

/-- The round of a loop makes way for another look at its condition. -/
theorem Shape.recheck {loop : Node} (stacked : Stack.join segments = .running activity :: rest)
    (sequel : activity.sequel = .recheck loop) :
    ∃ later, Stack.join later = .running (.header loop activity.scope) :: rest ∧
      Shape σ program none later ∧ Passes σ segments [] later := by
  obtain ⟨owner, scope, below, lower, rfl, rfl⟩ := shape.of_join_running stacked
  obtain ⟨stand, idle, change⟩ := shape.top
  have fits := stand.fits
  have room := fits.reach_le
  have fits' : (Activity.header loop activity.scope).Fits scope
      (Node.depths (Call.body program owner)) below := by
    refine ⟨fits.scope_eq, ?_, Replay.sound_fresh⟩
    simp only [Activity.reach, Activity.header, sequel] at room ⊢
    omega
  have stand' : Stand owner scope (Node.depths (Call.body program owner))
      (.header loop activity.scope :: below) :=
    .inner (by simp [Activity.header]) fits' (stand.below_of_stays (by simp [sequel]))
  have moves : Activity.Moves (activity :: below) (.header loop activity.scope :: below) :=
    ⟨_, [_], below, rfl, rfl, by simp [Activity.header]⟩
  exact ⟨_, rfl, change none _ stand' (moves.idle idle), .inside moves (.done _)⟩

/-- The body of a call makes way for the statement that asked for the call, with its result. -/
theorem Shape.return (stacked : Stack.join segments = .running activity :: rest)
    (sequel : activity.sequel = .return) (value : Value) :
    ∃ later, Stack.join later = Stack.deliver value rest ∧ Shape σ program none later ∧
      Answers σ value segments later := by
  obtain ⟨owner, scope, below, lower, rfl, rfl⟩ := shape.of_join_running stacked
  obtain ⟨stand, -, -⟩ := shape.top
  obtain ⟨rfl, ⟨call, rfl⟩, -⟩ := stand.of_return sequel
  cases shape with
  | active _ _ callers =>
    obtain ⟨owner, scope, caller, activities, lower, slot, stop, rfl, awaits, waits, answer⟩ :=
      callers.answer
    obtain ⟨stacked', shape'⟩ := answer value
    exact ⟨_, stacked'.symm, shape', .intro awaits waits⟩

end

/-- Calls are entered and left, and work that is done is dropped. -/
theorem Shape.settle (release : Memory → ScopeId → Stack → Memory) (memory : Memory)
    {segments : List Segment} (shape : Shape σ program none segments) :
    ∃ later, Passes σ segments (memory.settleWith release (Stack.join segments)).passages later ∧
      Ready σ program (memory.settleWith release (Stack.join segments)).next later := by
  generalize stacked : Stack.join segments = stack
  induction memory, stack using Memory.settleWith.induct release generalizing segments with
  | case1 memory =>
    obtain rfl := shape.of_join_nil stacked
    rw [Memory.settleWith_nil]
    exact ⟨_, .done _, .spent⟩
  | case2 memory closure arguments rest scope larger entered ih =>
    obtain ⟨between, stacked', shape', first⟩ := shape.enter stacked scope
    obtain ⟨later, passes, ready⟩ := ih shape' stacked'
    rw [Memory.settleWith_entering, entered]
    exact ⟨later, first.append passes, ready⟩
  | case3 memory activity rest node current =>
    obtain ⟨owner, scope, below, lower, rfl, rfl⟩ := shape.of_join_running stacked
    rw [Memory.settleWith_statement current]
    exact ⟨_, .done _, .statement current shape⟩
  | case4 memory activity rest sequel spent ih =>
    obtain ⟨between, stacked', shape', first⟩ := shape.drop stacked sequel
    obtain ⟨later, passes, ready⟩ := ih shape' stacked'
    rw [Memory.settleWith_nothing spent sequel]
    exact ⟨later, first.append passes, ready⟩
  | case5 memory activity rest loop sequel spent =>
    obtain ⟨between, stacked', shape', first⟩ := shape.recheck stacked sequel
    obtain ⟨owner, scope, below, lower, rfl, rfl⟩ := shape'.of_join_running stacked'
    rw [Memory.settleWith_recheck spent sequel]
    exact ⟨_, first, .statement rfl shape'⟩
  | case6 memory activity rest sequel spent delivered =>
    rename_i ih
    obtain ⟨between, stacked', shape', answers⟩ := shape.return stacked sequel .none
    obtain ⟨later, passes, ready⟩ := ih shape' stacked'
    rw [Memory.settleWith_return spent sequel]
    exact ⟨later, .returned answers passes, ready⟩

theorem isCall_of_stays (stays : activity.sequel ≠ .return) :
    (Continuation.running activity).isCall = false := by
  cases sequel : activity.sequel with
  | «return» => exact absurd sequel stays
  | nothing => simp [Continuation.isCall, sequel]
  | recheck => simp [Continuation.isCall, sequel]

theorem unwind_of_stand {call : Call} {depth : Nat}
    (stand : Stand (some call) scope depth activities) (rest : Stack) :
    Stack.unwind (activities.map Continuation.running ++ rest) = some (scope, rest) := by
  induction activities with
  | nil =>
    cases stand with
    | program impossible => cases impossible
  | cons activity below ih =>
    cases stand with
    | body owned work part ends fits =>
      simp [Stack.unwind, Continuation.isCall, ends, Continuation.scope, fits.scope_eq]
    | inner stays fits stand =>
      simp only [List.map_cons, List.cons_append, Stack.unwind, isCall_of_stays stays,
        Bool.false_eq_true, if_false]
      exact ih stand

theorem unwind_of_program {depth : Nat} (stand : Stand none scope depth activities) :
    Stack.unwind (activities.map Continuation.running) = none := by
  induction activities with
  | nil => rfl
  | cons activity below ih =>
    cases stand with
    | body impossible => cases impossible
    | inner stays fits stand =>
      simp only [List.map_cons, Stack.unwind, isCall_of_stays stays, Bool.false_eq_true, if_false]
      exact ih stand

/-- Where the run goes on after an attempt at a statement. Only a failure, or a return that no call
stands below, is the end of it. -/
def Proceeds (σ : Type) (program : List Node) (segments : List Segment) (owner : Option Call)
    (flow : Except Interrupt Flow) : Option Stack → Prop
  | some stack => ∃ later, stack = Stack.join later ∧ Shape σ program none later ∧
      Passes σ segments (Passage.ofFlow flow) later
  | none => (∃ fault, flow = .error (.fail fault)) ∨ (owner = none ∧ ∃ value, flow = .ok (.leave value))

theorem Shape.proceed_leave {replay : Replay}
    (shape : Shape σ program none (.active owner scope (activity :: below) :: lower))
    (sound : replay.Sound) (value : Value) :
    let goes := Stack.proceed { activity with replay }
      (below.map Continuation.running ++ Stack.join lower) (.ok (.leave value))
    owner = none ∧ goes = none ∨
      ∃ later, goes = some (Stack.join later) ∧ Shape σ program none later ∧
        Answers σ value (.active owner scope (activity :: below) :: lower) later := by
  obtain ⟨stand, -, -⟩ := shape.top
  simp only [Stack.proceed]
  cases shape with
  | program =>
    have lost := unwind_of_program (stand.withReplay sound)
    rw [List.map_cons] at lost
    simp only [Stack.join, List.flatMap_nil, List.append_nil]
    rw [lost]
    exact .inl ⟨trivial, rfl⟩
  | active _ _ callers =>
    have found := unwind_of_stand (stand.withReplay sound) (Stack.join lower)
    rw [List.map_cons, List.cons_append] at found
    obtain ⟨owner, scope, caller, activities, lower, slot, stop, rfl, awaits, waits, answer⟩ :=
      callers.answer
    obtain ⟨stacked, shape'⟩ := answer value
    rw [found, Option.map_some, stacked]
    exact .inr ⟨_, rfl, shape', .intro awaits waits⟩

theorem Shape.proceed {node : Node} {surroundings : Surroundings σ} {before : Progress σ}
    (shape : Shape σ program none (.active owner scope (activity :: below) :: lower))
    (current : activity.current? = some node) (place : surroundings.scope = activity.scope)
    (start : before.replay = activity.replay.rewind) :
    Proceeds σ program (.active owner scope (activity :: below) :: lower) owner
      (Evaluation.exec surroundings node before).1
      (Stack.proceed
        { activity with replay := (Evaluation.exec surroundings node before).2.replay }
        (below.map Continuation.running ++ Stack.join lower)
        (Evaluation.exec surroundings node before).1) := by
  obtain ⟨stand, idle, change⟩ := shape.top
  have sound : before.replay.Sound := start ▸ stand.fits.sound.rewind
  have waits : before.replay.waiting = none := by
    rw [start]
    exact idle activity List.mem_cons_self
  have idle' : ∀ later ∈ below, later.replay.waiting = none := fun later inside =>
    idle later (List.mem_cons_of_mem _ inside)
  have keeps := Evaluation.orderly_exec surroundings node before sound waits
  rcases reached : Evaluation.exec surroundings node before with ⟨flow, after⟩
  rw [reached] at keeps
  -- what is left of the work when the statement is done
  obtain ⟨left, stand', resumed, moves, room⟩ := stand.resume current after.replay (Stack.join lower)
  have idleLeft := moves.idle idle
  rcases flow with (fault | ⟨closure, arguments⟩) | (_ | inner | value)
  case error.fail => exact .inl ⟨fault, rfl⟩
  case error.suspend =>
    obtain ⟨fits, extends_, waiting⟩ := keeps
    obtain ⟨⟨slot, stop⟩, asked⟩ := Option.isSome_iff_exists.1 (waiting rfl)
    have awaits : Activity.Awaits σ { activity with replay := after.replay } ⟨closure, arguments⟩ := by
      refine ⟨⟨node, current, surroundings, before, after, place, ?_, reached, rfl⟩, slot, stop, asked,
        (extends_.sound.awaited asked).1⟩
      rw [start]
      rfl
    have shape' := change (some ⟨closure, arguments⟩) _ (stand.withReplay extends_.sound)
      ⟨_, below, rfl, awaits, idle'⟩
    have recalls : activity.replay.Recalls after.replay := by
      have known := extends_.recalls
      rw [start] at known
      exact known
    refine ⟨_, ?_, .pending fits shape', .called recalls awaits (.done _)⟩
    simp [Stack.join, continuations]
  case ok.next =>
    refine ⟨.active owner scope left :: lower, ?_, change none left stand' idleLeft,
      .inside moves (.done _)⟩
    rw [resumed]
    rfl
  case ok.enter =>
    have nested := Evaluation.exec_enter reached
    have fits : inner.Fits scope (Node.depths (Call.body program owner)) left :=
      ⟨nested.1.trans (place.trans stand.fits.scope_eq), room _ nested.2.2.2,
        nested.2.1 ▸ Replay.sound_fresh⟩
    refine ⟨.active owner scope (inner :: left) :: lower, ?_,
      change none _ (.inner nested.2.2.1 fits stand') ?_, .inside ?_ (.done _)⟩
    · rw [resumed]
      rfl
    · exact List.forall_mem_cons.2 ⟨congrArg Replay.waiting nested.2.1, idleLeft⟩
    · exact moves.enter nested.2.1
  case ok.leave =>
    rcases shape.proceed_leave keeps.1.sound value with ⟨unowned, goes⟩ | ⟨later, goes, shape', answers⟩
    · rw [goes]
      exact .inr ⟨unowned, value, rfl⟩
    · rw [goes]
      exact ⟨later, rfl, shape', .returned answers (.done _)⟩

end Segment

end TabScript
