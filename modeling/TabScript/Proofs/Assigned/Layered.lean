import TabScript.Proofs.Accounting.Owed
import TabScript.Proofs.Assigned.Pledged
import TabScript.Proofs.Frames.Callee
import TabScript.Proofs.Refinement.Run

/-! Work below a call keeps what it has seen.

Work that was begun stands below the call it waits for. Whatever runs above it runs in a scope that was
opened later, and this is not on the way outward from the scope of the work. So names go on to mean the same
for it, until it is attempted again. -/

set_option autoImplicit false

namespace TabScript

variable {σ : Type}

namespace Arena

/-- The way outward from a scope, with enough room for a chain. -/
structure Leads (arena : Arena) (id : ScopeId) (way : List (ScopeId × Scope)) : Prop where
  outward : arena.Outward id way
  short : way.length ≤ arena.slots.size

variable {before after : Arena} {id : ScopeId} {way later : List (ScopeId × Scope)}
  {opened : List ScopeId}

abbrev faces (way : List (ScopeId × Scope)) : List (ScopeId × Scope) :=
  way.map fun step => (step.1, step.2.face)

theorem Outward.faces_eq (outward : before.Outward id way) (spares : before.Spares opened after)
    (apart : ∀ place ∈ opened, place ∉ way.map Prod.fst) (outward' : after.Outward id later) :
    faces later = faces way := by
  -- both ways begin at one scope; the same face names the same scope around it, and so on outward
  induction outward generalizing later with
  | @last id scope present outermost =>
    have elsewhere : id ∉ opened := fun inside => apart id inside (by simp)
    have same := spares id elsewhere outward'.stands
    cases outward' with
    | @last _ scope' present' _ =>
      simp only [face?, present, present', Option.map_some, Option.some.injEq] at same
      simp [same]
    | inner present' parent' _ =>
      simp only [face?, present, present', Option.map_some, Option.some.injEq] at same
      rw [Scope.face_eq_iff, parent', outermost] at same
      cases same.1
  | @inner id outer scope rest present parent _ ih =>
    have elsewhere : id ∉ opened := fun inside => apart id inside (by simp)
    have same := spares id elsewhere outward'.stands
    cases outward' with
    | last present' outermost' =>
      simp only [face?, present, present', Option.map_some, Option.some.injEq] at same
      rw [Scope.face_eq_iff, parent, outermost'] at same
      cases same.1
    | @inner _ outer' scope' rest' present' parent' way' =>
      simp only [face?, present, present', Option.map_some, Option.some.injEq] at same
      obtain rfl : outer' = outer := by
        have parents := (Scope.face_eq_iff.1 same).1
        rw [parent, parent'] at parents
        exact Option.some.inj parents
      have rest_eq := ih (fun place inside here => apart place inside (by simp [here])) way'
      simp only [faces, List.map_cons, same] at rest_eq ⊢
      rw [rest_eq]

theorem Leads.lookup_eq (leads : before.Leads id way) (name : String) :
    before.lookup id name = (faces way).findSome? fun step => step.2.bindings.get? name := by
  rw [lookup, chain, leads.outward.chainWithin_eq leads.short, faces, List.findSome?_map,
    List.findSome?_map]
  rfl

/-- What is seen from a scope tells what names mean. -/
theorem Leads.agrees (leads : before.Leads id way) (leads' : after.Leads id later)
    (same : faces later = faces way) : before.Agrees id after := fun name => by
  rw [leads.lookup_eq, leads'.lookup_eq, same]

theorem places_eq (same : faces later = faces way) : later.map Prod.fst = way.map Prod.fst := by
  have places := congrArg (List.map Prod.fst) same
  simpa [faces, Function.comp_def] using places

theorem Outward.not_mem (outward : before.Outward id way) {place : ScopeId}
    (absent : before.scope? place = none) : place ∉ way.map Prod.fst := by
  intro inside
  obtain ⟨step, here, rfl⟩ := List.mem_map.1 inside
  rw [outward.present step here] at absent
  cases absent

end Arena

namespace Stack

variable {hosts : Array (HostFunction σ)} {arena before after : Arena} {place : ScopeId}
  {activity : Activity} {stack rest lower : Stack}

def Avoids (arena : Arena) (place : ScopeId) (stack : Stack) : Prop :=
  ∀ activity, .running activity ∈ stack → activity.replay = .fresh ∨
    ∀ way, arena.Outward activity.scope way → place ∉ way.map Prod.fst

/-- Statements that were begun keep their promises, and none of them sees the scope of any work above. -/
inductive Layered (hosts : Array (HostFunction σ)) (arena : Arena) : Stack → Prop where
  | nil : Layered hosts arena []
  | entering {closure : Closure} {arguments : List Value} {rest : Stack}
    (below : Layered hosts arena rest) : Layered hosts arena (.entering closure arguments :: rest)
  | running {activity : Activity} {rest : Stack}
    (pledged : activity.replay = .fresh ∨
      activity.Pledged hosts arena ∧ ∃ way, arena.Leads activity.scope way)
    (avoids : Avoids arena activity.scope rest) (below : Layered hosts arena rest) :
    Layered hosts arena (.running activity :: rest)

theorem Avoids.mono (avoids : Avoids arena place stack) (part : lower ⊆ stack) :
    Avoids arena place lower := fun activity inside => avoids activity (part inside)

theorem Avoids.deliver (avoids : Avoids arena place stack) (value : Value) :
    Avoids arena place (deliver value stack) := by
  rcases stack with _ | ⟨_ | top, rest⟩
  · exact avoids
  · exact avoids
  · intro activity inside
    rcases List.mem_cons.1 inside with same | further
    · cases same
      refine (avoids top List.mem_cons_self).imp_left fun fresh => ?_
      simp only [fresh]
      rfl
    · exact avoids activity (List.mem_cons_of_mem _ further)

theorem avoids_of_absent (absent : arena.scope? place = none) (stack : Stack) :
    Avoids arena place stack := fun _ _ => .inr fun _ outward => outward.not_mem absent

theorem Layered.pledged (layered : Layered hosts arena stack) (inside : .running activity ∈ stack) :
    activity.replay = .fresh ∨
      activity.Pledged hosts arena ∧ ∃ way, arena.Leads activity.scope way := by
  induction layered with
  | nil => cases inside
  | entering _ ih =>
    rcases List.mem_cons.1 inside with same | further
    · cases same
    · exact ih further
  | running pledged _ _ ih =>
    rcases List.mem_cons.1 inside with same | further
    · cases same
      exact pledged
    · exact ih further

theorem Layered.deliver (layered : Layered hosts arena stack) (value : Value) :
    Layered hosts arena (deliver value stack) := by
  cases layered with
  | nil => exact .nil
  | entering below => exact .entering below
  | @running activity rest pledged avoids below =>
    refine .running ?_ avoids below
    rcases pledged with fresh | ⟨pledged, leads⟩
    · refine .inl ?_
      simp only [fresh]
      rfl
    · exact .inr ⟨pledged.deliver value, leads⟩

theorem Layered.resume (layered : Layered hosts arena rest)
    (avoids : Avoids arena activity.scope rest) :
    Layered hosts arena (resume activity rest) ∧
      Avoids arena activity.scope (resume activity rest) := by
  unfold Stack.resume
  rcases activity.next?_cases with ⟨none_, -⟩ | ⟨remaining, -, left⟩
  · rw [none_]
    exact ⟨layered, avoids⟩
  · rw [left]
    refine ⟨.running (.inl rfl) avoids layered, fun other inside => ?_⟩
    rcases List.mem_cons.1 inside with same | further
    · cases same
      exact .inl rfl
    · exact avoids other further

theorem Layered.suffix (layered : Layered hosts arena stack) (part : lower <:+ stack) :
    Layered hosts arena lower := by
  induction layered with
  | nil => exact List.suffix_nil.1 part ▸ .nil
  | @entering closure arguments rest below ih =>
    rcases List.suffix_cons_iff.1 part with rfl | within
    · exact .entering below
    · exact ih within
  | running pledged avoids below ih =>
    rcases List.suffix_cons_iff.1 part with rfl | within
    · exact .running pledged avoids below
    · exact ih within

/-- On the way to a statement scopes are opened where none was, and calls give their results to the
statements below. -/
theorem Layered.settle (memory : Memory) (layered : Layered hosts arena stack)
    (absent : ∀ id ∈ (memory.settleWith Memory.release stack).opened, arena.scope? id = none) :
    Layered hosts arena (memory.settleWith Memory.release stack).stack := by
  induction memory, stack using Memory.settleWith.induct Memory.release with
  | case1 memory =>
    rw [Memory.settleWith_nil]
    exact .nil
  | case2 memory closure arguments rest scope larger entered ih =>
    rw [Memory.settleWith_entering, entered] at absent ⊢
    simp only [Settled.opened, Settled.after, List.filterMap_cons, Passage.opened?,
      List.forall_mem_cons] at absent
    cases layered with
    | entering below =>
      -- the scope is opened where none was, so no way from below leads through it
      exact ih (.running (.inl rfl) (avoids_of_absent absent.1 rest) below) absent.2
  | case3 memory activity rest node current =>
    rw [Memory.settleWith_statement current]
    exact layered
  | case4 memory activity rest sequel spent ih =>
    rw [Memory.settleWith_nothing spent sequel] at absent ⊢
    cases layered with
    | running _ _ below => exact ih below absent
  | case5 memory activity rest loop sequel spent =>
    rw [Memory.settleWith_recheck spent sequel]
    cases layered with
    | running _ avoids below => exact .running (.inl rfl) avoids below
  | case6 memory activity rest sequel spent delivered ih =>
    rw [Memory.settleWith_return spent sequel] at absent ⊢
    cases layered with
    | running _ _ below =>
      refine ih (below.deliver .none) fun id inside => absent id ?_
      simpa [Settled.opened, Settled.after, Passage.opened?] using inside

/-- Where a statement came to its end, work goes on in its scope or below a call. -/
theorem Layered.proceed {waiting : Activity} (layered : Layered hosts arena rest)
    (avoids : Avoids arena waiting.scope rest) {flow : Flow}
    (nested : ∀ inner, flow = .enter inner → inner.scope = waiting.scope ∧ inner.replay = .fresh)
    (goes : proceed waiting rest (.ok flow) = some stack) :
    Layered hosts arena stack ∧ Avoids arena waiting.scope stack := by
  cases flow with
  | next =>
    cases goes
    exact layered.resume avoids
  | enter inner =>
    cases goes
    obtain ⟨place, fresh⟩ := nested inner rfl
    obtain ⟨layered', avoids'⟩ := layered.resume avoids
    refine ⟨.running (.inl fresh) (place ▸ avoids') layered', fun other inside => ?_⟩
    rcases List.mem_cons.1 inside with same | further
    · cases same
      exact .inl fresh
    · exact avoids' other further
  | leave value =>
    obtain ⟨⟨callee, lower⟩, found, rfl⟩ := Option.map_eq_some_iff.1 goes
    have part : lower <:+ rest := by
      rw [Stack.unwind] at found
      split at found
      · cases found
        exact List.suffix_rfl
      · exact unwind_suffix found
    exact ⟨(layered.suffix part).deliver value, (avoids.mono part.subset).deliver value⟩

section
variable {opened : List ScopeId} (layered : Layered hosts before stack)
  (spares : before.Spares opened after) (avoids : ∀ place ∈ opened, Avoids before place stack)
include layered spares avoids

theorem Layered.faces_eq (inside : .running activity ∈ stack) (begun : activity.replay ≠ .fresh) :
    ∃ way, before.Leads activity.scope way ∧
      ∀ later, after.Outward activity.scope later → Arena.faces later = Arena.faces way := by
  obtain ⟨-, way, leads⟩ := (layered.pledged inside).resolve_left begun
  have apart : ∀ place ∈ opened, place ∉ way.map Prod.fst := fun place here =>
    ((avoids place here activity inside).resolve_left begun) way leads.outward
  exact ⟨way, leads, fun later outward => leads.outward.faces_eq spares apart outward⟩

theorem Layered.avoids_moved (apart : Avoids before place stack) : Avoids after place stack := by
  intro activity inside
  by_cases begun : activity.replay = .fresh
  · exact .inl begun
  · obtain ⟨way, leads, same⟩ := layered.faces_eq spares avoids inside begun
    refine .inr fun later outward => ?_
    rw [Arena.places_eq (same later outward)]
    exact ((apart activity inside).resolve_left begun) way leads.outward

/-- The promises are still good where scopes are written to that no begun work sees. -/
theorem Layered.moved
    (stands : ∀ continuation ∈ stack, ∃ way, after.Leads continuation.scope way) :
    Layered hosts after stack := by
  induction layered with
  | nil => exact .nil
  | @entering closure arguments rest below ih =>
    have part : rest ⊆ .entering closure arguments :: rest := List.subset_cons_self _ _
    exact .entering (ih (fun place here => (avoids place here).mono part)
      fun continuation inside => stands continuation (part inside))
  | @running activity rest pledged apart below ih =>
    have part : rest ⊆ .running activity :: rest := List.subset_cons_self _ _
    have avoids' := fun place here => (avoids place here).mono part
    refine .running ?_ (below.avoids_moved spares avoids' apart)
      (ih avoids' fun continuation inside => stands continuation (part inside))
    by_cases begun : activity.replay = .fresh
    · exact .inl begun
    · obtain ⟨way, leads, same⟩ :=
        (Layered.running pledged apart below).faces_eq spares avoids List.mem_cons_self begun
      obtain ⟨later, leads'⟩ := stands _ List.mem_cons_self
      have agrees := leads.agrees leads' (same later leads'.outward)
      exact .inr ⟨(pledged.resolve_left begun).1.agrees agrees, later, leads'⟩

end

end Stack

theorem Memory.Carries.leads {memory : Memory} {stack : Stack} (carries : memory.Carries stack) :
    ∀ continuation ∈ stack, ∃ way, memory.scopes.Leads continuation.scope way := by
  intro continuation inside
  obtain ⟨way, outward, short, -⟩ := carries.outward inside
  exact ⟨way, outward, short⟩

namespace Machine

variable {machine : Machine σ} {program : Block} {calls : List Call}

theorem step_of_goesOn (goesOn : machine.step.machine.status = .running) {activity : Activity}
    {node : Node} {rest : Stack} (next : machine.settled.next = some (activity, node, rest))
    {flow : Except Interrupt Flow} {after : Progress σ}
    (attempted : machine.attempt machine.settled.memory activity node = (flow, after)) :
    Stack.proceed { activity with replay := after.replay } rest flow =
        some machine.step.machine.stack ∧
      machine.step.machine.memory = Stack.vacate Memory.release after.memory
        (.running { activity with replay := after.replay } :: rest) flow := by
  have stepped := step_of_next (status_of_step goesOn) next
  rw [attempted] at stepped
  cases goes : Stack.proceed { activity with replay := after.replay } rest flow with
  | none =>
    simp only [goes] at stepped
    rw [stepped] at goesOn
    cases goesOn
  | some stack =>
    simp only [goes] at stepped
    rw [stepped]
    exact ⟨rfl, rfl⟩

section
variable (reached : Reached program machine calls) (running : machine.status = .running)
  (layered : machine.stack.Layered machine.hosts machine.memory.scopes)
include reached running layered

/-- In front of the next statement the promises are still good. -/
theorem Reached.settles_layered :
    machine.settled.stack.Layered machine.hosts machine.settled.memory.scopes := by
  obtain ⟨segments, stacked, -, shape⟩ := reached.shape running
  have absent : ∀ id ∈ machine.settled.opened, machine.memory.scopes.scope? id = none := by
    have carries := reached.carries running
    unfold settled
    rw [stacked] at carries ⊢
    exact carries.opened shape
  exact (layered.settle machine.memory absent).moved
    (machine.memory.spares_settleWith machine.stack)
    (fun place opened => Stack.avoids_of_absent (absent place opened) _)
    (reached.carries_settled running).leads

/-- The statement that comes next was not attempted yet, or the attempt before left a promise. -/
theorem Reached.next_promises {activity : Activity} {node : Node} {rest : Stack}
    (next : machine.settled.next = some (activity, node, rest)) :
    ∃ log resumed,
      Evaluation.Promises machine.hosts activity.scope node log
        ⟨machine.settled.memory, machine.host, [], []⟩ ∧
      machine.attempt machine.settled.memory activity node =
        Evaluation.exec ⟨activity.scope, machine.wants, machine.hosts⟩ node
          (World.progress ⟨machine.settled.memory, machine.host, [], []⟩
            (.behind [] log resumed)) := by
  have layered' := reached.settles_layered running layered
  have top : .running activity ∈ machine.settled.stack := by
    rw [Settled.stack, next]
    exact List.mem_cons_self
  rcases layered'.pledged top with fresh | ⟨⟨node', current', promise⟩, -⟩
  · refine ⟨[], false, Evaluation.promises_fresh _ _ node _, ?_⟩
    unfold attempt
    rw [fresh]
    rfl
  · have current : activity.current? = some node := Memory.settleWith_current _ _ _ next
    obtain rfl : node' = node := Option.some.inj (current'.symm.trans current)
    rcases promise with ⟨log, resumed, begins, kept⟩ | ⟨log, slot, stop, cursor, resumed, replay, -, -⟩
    · refine ⟨log, resumed, kept _ (Arena.agrees_refl _ _), ?_⟩
      unfold attempt
      rw [begins]
      rfl
    · -- what comes next waits for nothing
      obtain ⟨segments, stacked, -, shape⟩ := reached.shape running
      obtain ⟨later, -, ready⟩ := settles shape stacked
      rw [next] at ready
      cases ready with
      | statement _ shape' =>
        have idle := shape'.top.2.1 activity List.mem_cons_self
        rw [replay] at idle
        cases idle

/-- A statement that is left at a call has not written to any scope, and it leaves a promise. -/
theorem Reached.left_pledged {activity : Activity} {node : Node} {rest : Stack}
    (next : machine.settled.next = some (activity, node, rest)) {closure : Closure}
    {arguments : List Value} {after : Progress σ}
    (attempted : machine.attempt machine.settled.memory activity node =
      (.error (.suspend closure arguments), after)) :
    after.memory.scopes = machine.settled.memory.scopes ∧
      Activity.Pledged machine.hosts machine.settled.memory.scopes
        { activity with replay := after.replay } := by
  have scopes : after.memory.scopes = machine.settled.memory.scopes := by
    have careful := Evaluation.careful_exec ⟨activity.scope, machine.wants, machine.hosts⟩ node
    have undone := (careful.undone (congrArg Prod.fst attempted)).scopes
    exact (congrArg (fun reached => reached.2.memory.scopes) attempted).symm.trans undone
  obtain ⟨log, resumed, promises, same⟩ := reached.next_promises running layered next
  rw [same] at attempted
  obtain ⟨log', slot, stop, cursor, replay, empty, kept⟩ :=
    promises.left machine.wants resumed attempted
  rw [scopes] at kept
  have current : activity.current? = some node := Memory.settleWith_current _ _ _ next
  exact ⟨scopes, node, current, .inr ⟨log', slot, stop, cursor, resumed, replay, empty, kept⟩⟩

theorem Reached.steps_layered (stands : machine.step.machine.memory.Carries machine.step.machine.stack)
    (goesOn : machine.step.machine.status = .running) :
    machine.step.machine.stack.Layered machine.hosts machine.step.machine.memory.scopes := by
  obtain ⟨activity, node, rest, next⟩ := next_of_goesOn goesOn
  have layered' := reached.settles_layered running layered
  have leads := (reached.carries_settled running).leads (.running activity)
  rw [Settled.stack, next] at layered' leads
  rcases attempted : machine.attempt machine.settled.memory activity node with ⟨flow, after⟩
  obtain ⟨goes, memory⟩ := step_of_goesOn goesOn next attempted
  -- what suspends leaves a promise of its own; what goes on has only to keep those below
  cases layered' with
  | running _ avoids below =>
    have place : Stack.Avoids machine.settled.memory.scopes
      (Activity.scope { activity with replay := after.replay }) rest := avoids
    rcases flow with (fault | ⟨closure, arguments⟩) | flow
    · cases goes
    · obtain ⟨scopes, pledged⟩ := reached.left_pledged running layered next attempted
      rw [memory, ← Option.some.inj goes]
      change Stack.Layered _ after.memory.scopes _
      rw [scopes]
      exact .entering (.running (.inr ⟨pledged, leads List.mem_cons_self⟩) place below)
    · have nested : ∀ inner, flow = .enter inner →
          inner.scope = activity.scope ∧ inner.replay = .fresh := by
        rintro inner rfl
        obtain ⟨place, fresh, -⟩ := Evaluation.exec_enter attempted
        exact ⟨place, fresh⟩
      obtain ⟨layered'', avoids'⟩ := below.proceed place nested goes
      refine layered''.moved (spares_step running next) (fun place here => ?_) stands.leads
      rw [List.mem_singleton.1 here]
      exact avoids'

end

/-- Wherever a program comes to, statements that were begun keep their promises. -/
theorem Reached.layered (reached : Reached program machine calls)
    (running : machine.status = .running) :
    machine.stack.Layered machine.hosts machine.memory.scopes := by
  induction reached with
  | start ready =>
    obtain ⟨begins, -⟩ := begins_of_ofProgram ready
    rw [begins]
    exact .running (.inl rfl) (fun _ impossible => by cases impossible) .nil
  | turn limit before ih =>
    have carries := (before.turn limit).carries running
    obtain ⟨same, running'⟩ := turn_of_running running
    rw [same] at running carries ⊢
    rw [(fixed_step _).2]
    exact before.steps_layered running' (ih running') carries running
  | on kind before ih => exact ih running
  | load kinds before ih => exact ih running

end Machine

end TabScript
