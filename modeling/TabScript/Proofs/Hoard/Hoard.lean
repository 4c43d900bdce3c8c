import TabScript.Proofs.Hoard.Reclaim
import TabScript.Proofs.Stack.Kept
import TabScript.Proofs.Stack.Reached

/-! A machine that keeps every scope for ever.

It runs like the machine, but no scope is ever given back and no number used again. What happened so
far is part of its state. -/

set_option autoImplicit false

namespace TabScript

variable {σ : Type}

structure Hoard (σ : Type) where
  world : World σ
  stack : Stack
  executed : Nat

def Memory.keep (memory : Memory) (_ : ScopeId) (_ : Stack) : Memory := memory

namespace Hoard

inductive Outcome (σ : Type) where
  | goesOn (hoard : Hoard σ)
  | stops (hoard : Hoard σ)
  | fails (fault : Fault) (hoard : Hoard σ)

def Outcome.hoard : Outcome σ → Hoard σ
  | goesOn hoard | stops hoard | fails _ hoard => hoard

def settled (hoard : Hoard σ) : Settled :=
  hoard.world.memory.settleWith Memory.keep hoard.stack

variable (wants : EventKind → Bool) (hosts : Array (HostFunction σ))

/-- How a statement runs after everything that happened so far. -/
def attempt (world : World σ) (activity : Activity) (node : Node) :
    Except Interrupt Flow × Progress σ :=
  Evaluation.exec ⟨activity.scope, wants, hosts⟩ node (world.progress activity.replay.rewind)

def conclude (hoard : Hoard σ) (activity : Activity) (node : Node) (rest : Stack)
    (reached : Except Interrupt Flow × Progress σ) : Outcome σ :=
  let after (stack : Stack) : Hoard σ :=
    ⟨reached.2.world, stack, hoard.executed + if activity.replay.resumed then 0 else 1⟩
  match Stack.proceed { activity with replay := reached.2.replay } rest reached.1 with
  | some stack => .goesOn (after stack)
  | none => .fails (Stack.failure node.span reached.1) (after [])

def front (hoard : Hoard σ) : World σ := { hoard.world with memory := hoard.settled.memory }

def step (hoard : Hoard σ) : Outcome σ :=
  match hoard.settled.next with
  | none => .stops ⟨hoard.front, [], hoard.executed⟩
  | some (activity, node, rest) =>
    hoard.conclude activity node rest (attempt wants hosts hoard.front activity node)

end Hoard

def Passage.opened? : Passage → Option ScopeId
  | entered scope => some scope
  | _ => none

def Settled.opened (settled : Settled) : List ScopeId :=
  settled.passages.filterMap Passage.opened?

/-- Two memories with the segments of the stack in the one that keeps all scopes. The scopes of the
calls are different. -/
structure Abreast (σ : Type) (program : List Node) (ledger : Ledger) (slim full : Memory)
    (segments : List Segment) : Prop where
  memory : slim.Mirrors ledger full
  fixed : ledger.place Arena.global = Arena.global
  admitted : ∀ continuation ∈ Stack.join segments, continuation.Admitted ledger
  shape : Segment.Shape σ program none segments
  distinct : (segments.filterMap Segment.opened?).Nodup
  outside : Arena.global ∉ segments.filterMap Segment.opened?

namespace Continuation

variable {continuation : Continuation}

theorem Admitted.deliver {ledger : Ledger} (known : continuation.Admitted ledger) {value : Value}
    (admitted : ledger.Admits value) : (continuation.deliver value).Admitted ledger := by
  cases continuation with
  | entering closure arguments => exact known
  | running activity => exact ⟨known.1, Replay.All.deliver known.2 admitted⟩

def Elsewhere (continuation : Continuation) (scope : ScopeId) : Prop :=
  ∀ activity, continuation = .running activity → activity.scope ≠ scope

theorem Elsewhere.deliver {scope : ScopeId} (elsewhere : continuation.Elsewhere scope) (value : Value) :
    (continuation.deliver value).Elsewhere scope := by
  cases continuation with
  | entering closure arguments => nofun
  | running activity =>
    rintro _ same
    cases same
    exact elsewhere activity rfl

end Continuation

namespace Segment

variable {program : List Node} {above : Option Call} {segments : List Segment}

theorem Shape.opened_mem (shape : Shape σ program above segments) :
    ∀ scope ∈ segments.filterMap opened?,
      ∃ activity, .running activity ∈ Stack.join segments ∧ activity.scope = scope := by
  induction shape with
  | program => simp [opened?]
  | @active above call scope activities below stand wait rest ih =>
    intro other inside
    rcases List.mem_cons.1 inside with rfl | inside
    · cases stand with
      | program impossible => cases impossible
      | body _ _ _ _ fits => exact ⟨_, by simp [Stack.join, continuations], fits.scope_eq⟩
      | inner _ fits _ => exact ⟨_, by simp [Stack.join, continuations], fits.scope_eq⟩
    · obtain ⟨activity, there, same⟩ := ih other inside
      exact ⟨activity, List.mem_append_right _ there, same⟩
  | pending fits rest ih =>
    intro other inside
    obtain ⟨activity, there, same⟩ := ih other inside
    exact ⟨activity, List.mem_append_right _ there, same⟩

theorem Shape.scope_mem {call : Call} (shape : Shape σ program (some call) segments) :
    ∀ continuation ∈ Stack.join segments, ∃ activity, continuation = .running activity ∧
      (activity.scope ∈ segments.filterMap opened? ∨ activity.scope = Arena.global) := by
  generalize waits : some call = above at shape
  induction shape generalizing call with
  | program stand wait =>
    intro continuation inside
    simp only [Stack.join, List.flatMap_cons, continuations, List.flatMap_nil, List.append_nil] at inside
    obtain ⟨activity, -, rfl⟩ := List.mem_map.1 inside
    exact ⟨activity, rfl, .inr (stand.scope_eq _ inside)⟩
  | @active above call scope activities below stand wait rest ih =>
    intro continuation inside
    rcases List.mem_append.1 inside with here | there
    · obtain ⟨activity, -, rfl⟩ := List.mem_map.1 here
      refine ⟨activity, rfl, .inl (List.mem_cons.2 (.inl ?_))⟩
      exact stand.scope_eq _ here
    · obtain ⟨activity, same, place⟩ := ih rfl continuation there
      exact ⟨activity, same, place.imp (List.mem_cons_of_mem _) id⟩
  | pending => cases waits

end Segment

namespace Abreast

variable {program : List Node} {ledger : Ledger} {slim full : Memory} {segments later : List Segment}

theorem fresh (abreast : Abreast σ program ledger slim full segments) {id : ScopeId}
    (unknown : ¬ledger.live id) :
    id ∉ segments.filterMap Segment.opened? ∧ id ≠ Arena.global := by
  constructor
  · intro inside
    obtain ⟨activity, there, rfl⟩ := abreast.shape.opened_mem id inside
    exact unknown (abreast.admitted _ there).1
  · rintro rfl
    exact unknown (abreast.memory.scopes.live abreast.memory.scopes.global)

theorem stay (abreast : Abreast σ program ledger slim full segments)
    (same : later.filterMap Segment.opened? = segments.filterMap Segment.opened?)
    (shape : Segment.Shape σ program none later)
    (admitted : ∀ continuation ∈ Stack.join later, continuation.Admitted ledger) :
    Abreast σ program ledger slim full later := by
  exact ⟨abreast.memory, abreast.fixed, admitted, shape, same ▸ abreast.distinct,
    same ▸ abreast.outside⟩

theorem enter (abreast : Abreast σ program ledger slim full segments) {closure : Closure}
    {arguments : List Value} {rest : Stack}
    (stacked : Stack.join segments = .entering closure arguments :: rest)
    (placed : ledger.place (full.enter closure arguments).1 =
      (slim.enter (closure.relocate ledger.place)
        (arguments.map (Value.relocate ledger.place))).1) :
    ∃ later,
      Stack.join later = .running (.body closure (full.enter closure arguments).1) :: rest ∧
      Abreast σ program (ledger.opening (full.enter closure arguments).1)
        (slim.enter (closure.relocate ledger.place)
          (arguments.map (Value.relocate ledger.place))).2
        (full.enter closure arguments).2 later ∧
      Segment.Passes σ segments [.entered (full.enter closure arguments).1] later := by
  have call : ledger.AdmitsCall closure arguments :=
    abreast.admitted (.entering closure arguments) (by rw [stacked]; exact List.mem_cons_self)
  obtain ⟨later, stacked', shape, passes⟩ :=
    abreast.shape.enter stacked (full.enter closure arguments).1
  have scopes := passes.scopes
  -- the new scope is in no segment yet, so the scopes of the segments stay distinct
  have new := abreast.fresh (full.fresh_enter abreast.memory.scopes closure arguments)
  refine ⟨later, stacked', ⟨abreast.memory.enter call placed, abreast.fixed, ?_, shape, ?_, ?_⟩,
    passes⟩
  · rw [stacked']
    intro continuation inside
    rcases List.mem_cons.1 inside with rfl | inside
    · exact ⟨.inr rfl, Replay.all_fresh⟩
    · have known := abreast.admitted continuation (by rw [stacked]; exact List.mem_cons_of_mem _ inside)
      cases continuation with
      | entering closure arguments => exact known
      | running activity => exact ⟨.inl known.1, known.2⟩
  · rw [scopes]
    exact List.nodup_cons.2 ⟨new.1, abreast.distinct⟩
  · rw [scopes]
    exact fun inside => (List.mem_cons.1 inside).elim (fun same => new.2 same.symm) abreast.outside

theorem drop (abreast : Abreast σ program ledger slim full segments) {activity : Activity} {rest : Stack}
    (stacked : Stack.join segments = .running activity :: rest) (sequel : activity.sequel = .nothing) :
    ∃ later, Stack.join later = rest ∧ Abreast σ program ledger slim full later ∧
      Segment.Passes σ segments [] later := by
  obtain ⟨later, stacked', shape, passes⟩ := abreast.shape.drop stacked sequel
  refine ⟨later, stacked', abreast.stay passes.scopes shape ?_, passes⟩
  rw [stacked']
  intro continuation inside
  exact abreast.admitted continuation (by rw [stacked]; exact List.mem_cons_of_mem _ inside)

theorem recheck (abreast : Abreast σ program ledger slim full segments) {activity : Activity} {rest : Stack}
    {loop : Node} (stacked : Stack.join segments = .running activity :: rest)
    (sequel : activity.sequel = .recheck loop) :
    ∃ later, Stack.join later = .running (.header loop activity.scope) :: rest ∧
      Abreast σ program ledger slim full later ∧ Segment.Passes σ segments [] later := by
  obtain ⟨later, stacked', shape, passes⟩ := abreast.shape.recheck stacked sequel
  refine ⟨later, stacked', abreast.stay passes.scopes shape ?_, passes⟩
  have known := abreast.admitted
  rw [stacked, List.forall_mem_cons] at known
  rw [stacked', List.forall_mem_cons]
  exact ⟨⟨known.1.1, Replay.all_fresh⟩, known.2⟩

theorem leave {call : Call} {callee : ScopeId} {ended : List Activity}
    {lower : List Segment}
    (abreast : Abreast σ program ledger slim full (.active (some call) callee ended :: lower))
    {value : Value} (admitted : ledger.Admits value)
    (passes : Segment.Passes σ (.active (some call) callee ended :: lower) [.returned value] later)
    (shape : Segment.Shape σ program none later)
    (stacked : Stack.join later = Stack.deliver value (Stack.join lower)) :
    ∃ left : Ledger, left.place = ledger.place ∧
      Abreast σ program left
        (slim.release (ledger.place callee) (Stack.relocate ledger.place (Stack.join later)))
        full later := by
  have scopes := passes.scopes
  obtain ⟨alone, distinct⟩ := List.nodup_cons.1 abreast.distinct
  have callers : Segment.Shape σ program (some call) lower := by
    cases abreast.shape with
    | active _ _ rest => exact rest
  have live : ledger.live callee := by
    obtain ⟨activity, there, rfl⟩ := abreast.shape.opened_mem callee List.mem_cons_self
    exact (abreast.admitted _ there).1
  -- what is below the call is admitted, and none of it stands in the scope that is given back
  have below : ∀ continuation ∈ Stack.join lower, continuation.Admitted ledger ∧
      continuation.Elsewhere callee := by
    refine fun continuation inside => ⟨abreast.admitted continuation (List.mem_append_right _ inside), ?_⟩
    rintro activity rfl same
    obtain ⟨activity', there, place⟩ := callers.scope_mem _ inside
    cases there
    rcases place with within | global
    · exact alone (same ▸ within)
    · exact abreast.outside (List.mem_cons.2 (.inl (by rw [← same, global])))
  have delivered := Stack.forall_deliver below fun continuation both =>
    ⟨both.1.deliver admitted, both.2.deliver value⟩
  rw [← stacked] at delivered
  obtain ⟨left, place, mirrors, reached⟩ := abreast.memory.release abreast.fixed live
    (Stack.join later) (fun continuation inside => (delivered continuation inside).1)
    fun activity inside => (delivered _ inside).2 activity rfl
  exact ⟨left, place, mirrors, place ▸ abreast.fixed, reached, shape,
    scopes ▸ distinct, scopes ▸ fun inside => abreast.outside (List.mem_cons_of_mem _ inside)⟩

def relocateNext (place : ScopeId → ScopeId) (next : Activity × Node × Stack) :
    Activity × Node × Stack :=
  (next.1.relocate place, next.2.1, Stack.relocate place next.2.2)

def Meets (σ : Type) (program : List Node) (ledger : Ledger) (segments : List Segment)
    (there here : Settled) : Prop :=
  ∃ (left : Ledger) (later : List Segment), left.place = ledger.place ∧
    Abreast σ program left there.memory here.memory later ∧
    Segment.Passes σ segments here.passages later ∧ Segment.Ready σ program here.next later ∧
    there.next = here.next.map (relocateNext ledger.place)

theorem Meets.after {between : List Segment} {there here : Settled} {passage other : Passage}
    {left : Ledger} (meets : Meets σ program left between there here)
    (place : left.place = ledger.place) (first : Segment.Passes σ segments [passage] between) :
    Meets σ program ledger segments (there.after other) (here.after passage) := by
  obtain ⟨last, later, place', abreast, passes, ready, next⟩ := meets
  exact ⟨last, later, place'.trans place, abreast, first.append passes, ready, place ▸ next⟩

/-- Both sides come to the same statement, if the new scopes are where the ledger says. -/
theorem settle (abreast : Abreast σ program ledger slim full segments)
    (placed : (slim.settleWith Memory.release
        (Stack.relocate ledger.place (Stack.join segments))).opened =
      (full.settleWith Memory.keep (Stack.join segments)).opened.map ledger.place) :
    Meets σ program ledger segments
      (slim.settleWith Memory.release (Stack.relocate ledger.place (Stack.join segments)))
      (full.settleWith Memory.keep (Stack.join segments)) := by
  -- the side that keeps every scope leads; the other one does the same in each case, as no place decides a case
  generalize stacked : Stack.join segments = stack at placed ⊢
  induction full, stack using Memory.settleWith.induct Memory.keep generalizing slim ledger segments with
  | case1 full =>
    obtain rfl := abreast.shape.of_join_nil stacked
    simp only [List.map_nil, Memory.settleWith_nil]
    exact ⟨ledger, _, rfl, abreast, .done _, .spent, rfl⟩
  | case2 full closure arguments rest scope larger entered ih =>
    simp only [List.map_cons, Continuation.relocate, Memory.settleWith_entering, Settled.opened,
      Settled.after, List.filterMap_cons, Passage.opened?, List.cons.injEq] at placed ⊢
    obtain ⟨here, others⟩ := placed
    obtain ⟨between, stacked', abreast', first⟩ := abreast.enter stacked here.symm
    obtain ⟨rfl, rfl⟩ : (full.enter closure arguments).1 = scope ∧
        (full.enter closure arguments).2 = larger := by simp [entered]
    have body : Stack.relocate ledger.place
          (.running (.body closure (full.enter closure arguments).1) :: rest) =
        .running (.body (closure.relocate ledger.place)
          (slim.enter (closure.relocate ledger.place)
            (arguments.map (Value.relocate ledger.place))).1) :: Stack.relocate ledger.place rest := by
      simp [Continuation.relocate, Activity.body_relocate, here]
    have same : (ledger.opening (full.enter closure arguments).1).place = ledger.place := rfl
    have meets := ih abreast' stacked' (by
      rw [same, body]
      exact others)
    rw [same, body] at meets
    exact meets.after same first
  | case3 full activity rest node current =>
    obtain ⟨owner, scope, below, lower, rfl, rfl⟩ := abreast.shape.of_join_running stacked
    have current' : (activity.relocate ledger.place).current? = some node := current
    simp only [List.map_cons, Continuation.relocate]
    rw [Memory.settleWith_statement current, Memory.settleWith_statement current']
    exact ⟨ledger, _, rfl, abreast, .done _, .statement current abreast.shape, rfl⟩
  | case4 full activity rest sequel spent ih =>
    obtain ⟨between, stacked', abreast', first⟩ := abreast.drop stacked sequel
    have spent' : (activity.relocate ledger.place).current? = none := spent
    have sequel' : (activity.relocate ledger.place).sequel = .nothing := sequel
    simp only [List.map_cons, Continuation.relocate] at placed ⊢
    rw [Memory.settleWith_nothing spent sequel, Memory.settleWith_nothing spent' sequel'] at placed ⊢
    obtain ⟨left, later, place, kept, passes, ready, next⟩ := ih abreast' stacked' placed
    exact ⟨left, later, place, kept, first.append passes, ready, next⟩
  | case5 full activity rest loop sequel spent =>
    obtain ⟨between, stacked', abreast', first⟩ := abreast.recheck stacked sequel
    have spent' : (activity.relocate ledger.place).current? = none := spent
    have sequel' : (activity.relocate ledger.place).sequel = .recheck loop := sequel
    simp only [List.map_cons, Continuation.relocate] at placed ⊢
    rw [Memory.settleWith_recheck spent sequel, Memory.settleWith_recheck spent' sequel']
    obtain ⟨owner, scope, below, lower, rfl, rfl⟩ := abreast'.shape.of_join_running stacked'
    refine ⟨ledger, _, rfl, abreast', first, .statement rfl abreast'.shape, ?_⟩
    have moved := Activity.header_relocate ledger.place loop activity.scope
    simp only [Option.map_some, relocateNext, moved]
    rfl
  | case6 full activity rest sequel spent delivered =>
    rename_i ih
    obtain ⟨between, stacked', shape, answers⟩ := abreast.shape.return stacked sequel .none
    have first : Segment.Passes σ segments [.returned .none] between := .returned answers (.done _)
    obtain ⟨owner, scope, below, lower, rfl, rfl⟩ := abreast.shape.of_join_running stacked
    obtain ⟨stand, -, -⟩ := abreast.shape.top
    obtain ⟨rfl, ⟨call, rfl⟩, -⟩ := stand.of_return sequel
    obtain rfl := stand.fits.scope_eq
    -- one side may give the scope of the call back here, and the ledger that is left knows of it
    have none_ : ledger.Admits .none := trivial
    obtain ⟨left, place, abreast'⟩ := abreast.leave none_ first shape stacked'
    have spent' : (activity.relocate ledger.place).current? = none := spent
    have sequel' : (activity.relocate ledger.place).sequel = .return := sequel
    have given := Stack.deliver_relocate ledger.place .none (Stack.join lower)
    simp only [List.map_cons, Continuation.relocate] at placed ⊢
    rw [Memory.settleWith_return spent sequel, Memory.settleWith_return spent' sequel'] at placed ⊢
    simp only [List.map_nil, List.nil_append, Value.relocate_none] at given placed stacked' ⊢
    rw [given] at placed ⊢
    rw [stacked'] at abreast'
    have meets := ih abreast' stacked' (by
      rw [place]
      exact placed)
    rw [place] at meets
    exact meets.after place first

end Abreast

end TabScript
