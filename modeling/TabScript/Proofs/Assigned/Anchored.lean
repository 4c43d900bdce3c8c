import TabScript.Proofs.Frames.Statement
import TabScript.Proofs.Replay.Course

/-! The variable that an update starts at.

Only an array can be changed, and only in an array an array is found. So the variable at the root of a
chain of subscripts is an array when the chain leads to one. It still is when the other parts of the
statement are evaluated, as long as their calls leave the names alone that the statement sees. -/

set_option autoImplicit false

namespace TabScript

variable {σ α β : Type}

namespace Arena

def Agrees (scope : ScopeId) (before after : Arena) : Prop :=
  ∀ name, after.lookup scope name = before.lookup scope name

def NamesArray (arena : Arena) (scope : ScopeId) (name : String) : Prop :=
  ∃ ref, arena.lookup scope name = some (.array ref)

variable {scope : ScopeId} {before between after : Arena}

theorem agrees_refl (scope : ScopeId) (arena : Arena) : arena.Agrees scope arena := fun _ => rfl

theorem Agrees.trans (first : before.Agrees scope between) (second : between.Agrees scope after) :
    before.Agrees scope after := fun name => (second name).trans (first name)

theorem Agrees.namesArray (agrees : before.Agrees scope after) {name : String}
    (found : before.NamesArray scope name) : after.NamesArray scope name := by
  obtain ⟨ref, looked⟩ := found
  exact ⟨ref, (agrees name).trans looked⟩

end Arena

/-- What names mean is not changed by new arrays. -/
theorem Memory.Extends.agrees {before after : Memory} (extension : before.Extends after)
    (scope : ScopeId) : before.scopes.Agrees scope after.scopes := by
  rw [extension.scopes]
  exact Arena.agrees_refl scope _

namespace Course

/-- Whatever the course comes to is good, if no call on the way changes what names mean in a scope. -/
def Ensures (scope : ScopeId) (good : α → World σ → Prop) : Course σ α → Prop
  | done (.ok value) world => good value world
  | done (.error _) _ => True
  | call _ _ world resume => ∀ value later,
      world.memory.scopes.Agrees scope later.memory.scopes → Ensures scope good (resume value later)

variable {scope : ScopeId} {good : α → World σ → Prop} {better : β → World σ → Prop}

theorem Ensures.bind {course : Course σ α} {next : α → World σ → Course σ β}
    (start : course.Ensures scope good)
    (rest : ∀ value world, good value world → (next value world).Ensures scope better) :
    (course.bind next).Ensures scope better := by
  induction course with
  | done outcome world =>
    cases outcome with
    | ok value => exact rest value world start
    | error fault => trivial
  | call closure arguments world resume ih =>
    exact fun value later agrees => ih value later (start value later agrees)

theorem Ensures.mono {course : Course σ α} {weaker : α → World σ → Prop}
    (ensures : course.Ensures scope good) (more : ∀ value world, good value world → weaker value world) :
    course.Ensures scope weaker := by
  induction course with
  | done outcome world =>
    cases outcome with
    | ok value => exact more value world ensures
    | error fault => trivial
  | call closure arguments world resume ih =>
    exact fun value later agrees => ih value later (ensures value later agrees)

theorem ensures_of_always (course : Course σ α) (always : ∀ value world, good value world) :
    course.Ensures scope good := by
  induction course with
  | done outcome world =>
    cases outcome with
    | ok value => exact always value world
    | error fault => trivial
  | call closure arguments world resume ih => exact fun value later _ => ih value later

end Course

namespace Plan

variable {scope : ScopeId} {good : α → World σ → Prop}

theorem ensures_act {action : Evaluation σ α} {world : World σ}
    (ends : ∀ value after, action (world.progress .fresh) = (.ok value, after) →
      good value after.world) : (act action world).Ensures scope good := by
  unfold act
  rcases reached : action (world.progress .fresh) with ⟨(fault | ⟨closure, arguments⟩) | value, after⟩
  · trivial
  · trivial
  · exact ends value after reached

def Keeps (scope : ScopeId) (plan : Plan σ α) : Prop :=
  ∀ world, (plan world).Ensures scope fun _ after =>
    world.memory.scopes.Agrees scope after.memory.scopes

theorem keeps_pure (value : α) : Keeps scope (pure value : Plan σ α) :=
  fun world => Arena.agrees_refl scope world.memory.scopes

theorem Keeps.bind {plan : Plan σ α} {next : α → Plan σ β} (start : Keeps scope plan)
    (rest : ∀ value, Keeps scope (next value)) : Keeps scope (plan >>= next) := fun world =>
  (start world).bind fun value between agrees =>
    (rest value between).mono fun _ _ more => agrees.trans more

theorem keeps_act {action : Evaluation σ α} (quiet : Evaluation.Quiet action) :
    Keeps scope (act action) := by
  intro world
  refine ensures_act fun value after reached => ?_
  have extension := quiet (world.progress .fresh)
  rw [reached] at extension
  exact extension.agrees scope

theorem keeps_request {action : Evaluation σ Value} (quiet : Evaluation.Quiet action) :
    Keeps scope (request action) := by
  intro world
  have extension := quiet (world.progress .fresh)
  unfold request
  rcases reached : action (world.progress .fresh) with
    ⟨(fault | ⟨closure, arguments⟩) | value, after⟩
  all_goals rw [reached] at extension
  · trivial
  · exact fun value later agrees => (extension.agrees scope).trans agrees
  · exact extension.agrees scope

variable (surroundings : Surroundings σ)

open Evaluation

mutual

theorem keeps_eval : ∀ node : Node, Keeps scope (manner.eval surroundings node)
  | .literal _ value => by
    rw [Manner.eval]
    exact keeps_pure _
  | .identifier span name => by
    rw [Manner.eval]
    exact keeps_act (quiet_lookup surroundings span name)
  | .unary _ _ _ operand => by
    rw [Manner.eval]
    exact (keeps_eval operand).bind fun _ => keeps_act (quiet_locate _ _)
  | .binary _ _ _ left right => by
    rw [Manner.eval]
    refine (keeps_eval left).bind fun _ => (keeps_eval right).bind fun _ => keeps_act ?_
    exact quiet_heap.bind fun _ => (quiet_locate _ _).bind fun _ => quiet_realize _
  | .call span callee nodes => by
    rw [Manner.eval]
    exact (keeps_eval callee).bind fun _ => (keeps_evalAll nodes).bind fun _ =>
      keeps_request (quiet_apply surroundings _ _ _ _ _)
  | .element _ target index => by
    rw [Manner.eval]
    refine (keeps_eval target).bind fun _ => (keeps_eval index).bind fun _ => keeps_act ?_
    exact quiet_heap.bind fun _ => quiet_locate _ _
  | .slice _ target start stop => by
    rw [Manner.eval]
    refine (keeps_eval target).bind fun _ => (keeps_eval start).bind fun _ =>
      (keeps_eval stop).bind fun _ => keeps_act ?_
    exact quiet_heap.bind fun _ => (quiet_locate _ _).bind fun _ => quiet_realize _
  | .array _ nodes => by
    rw [Manner.eval]
    exact (keeps_evalAll nodes).bind fun values =>
      keeps_act (quiet_realize (.items values))
  | .assignment .. | .choice .. | .loop .. | .definition .. | .result .. | .pass .. | .deletion .. => by
    rw [Manner.eval]
    exact keeps_act (quiet_fail _ _)

theorem keeps_evalAll : ∀ nodes : List Node, Keeps scope (manner.evalAll surroundings nodes)
  | [] => by
    rw [Manner.evalAll]
    exact keeps_pure _
  | node :: nodes => by
    rw [Manner.evalAll]
    exact (keeps_eval node).bind fun _ => (keeps_evalAll nodes).bind fun _ => keeps_pure _

end

end Plan

namespace Value

theorem array_of_element {heap : Heap} {target index : Value} {ref : ArrayRef}
    (found : element heap target index = .ok (.array ref)) : ∃ outer, target = .array outer := by
  cases target with
  | array outer => exact ⟨outer, rfl⟩
  | text characters =>
    obtain ⟨_, -, made⟩ := except_bind_ok found
    cases made
  | none | boolean | number | function => cases found

theorem array_of_slice {heap : Heap} {target start stop : Value} {computed : Computed}
    (found : slice heap target start stop = .ok computed) :
    (∃ outer, target = .array outer) ∨ ∃ characters, computed = .value (.text characters) := by
  cases target with
  | array outer => exact .inl ⟨outer, rfl⟩
  | text characters =>
    obtain ⟨_, -, made⟩ := except_bind_ok found
    cases made
    exact .inr ⟨_, rfl⟩
  | none | boolean | number | function => cases found

theorem array_of_changeable {target : Value} {next : ArrayRef → Except OperationFault β} {result : β}
    (changed : (changeable target >>= next) = .ok result) : ∃ ref, target = .array ref := by
  obtain ⟨ref, found, -⟩ := except_bind_ok changed
  cases target with
  | array outer => exact ⟨outer, rfl⟩
  | none | boolean | number | text | function => cases found

end Value

def Node.Anchored (scope : ScopeId) (node : Node) (value : Value) (arena : Arena) : Prop :=
  ∀ name, Evaluation.rootName? node = some name → ∀ ref, value = .array ref →
    arena.NamesArray scope name

theorem Node.Anchored.later {scope : ScopeId} {node : Node} {value : Value} {before after : Arena}
    (anchored : node.Anchored scope value before) (agrees : before.Agrees scope after) :
    node.Anchored scope value after := fun name root ref same =>
  agrees.namesArray (anchored name root ref same)

namespace Evaluation

theorem locate_ok {spanOf : Culprit → Span} {result : Except OperationFault α} {value : α}
    {before after : Progress σ} (reached : locate spanOf result before = (.ok value, after)) :
    result = .ok value ∧ before = after := by
  cases result with
  | error fault => cases reached
  | ok found =>
    cases reached
    exact ⟨rfl, rfl⟩

theorem locate_bind_ok {spanOf : Culprit → Span} {result : Except OperationFault α}
    {next : α → Evaluation σ β} {value : β} {before after : Progress σ}
    (reached : (locate spanOf result >>= next) before = (.ok value, after)) :
    ∃ found, result = .ok found ∧ next found before = (.ok value, after) := by
  cases result with
  | error fault => cases reached
  | ok found => exact ⟨found, rfl, reached⟩

theorem mutation_ok {surroundings : Surroundings σ} {container : Node} {spanOf : Culprit → Span}
    {change : Heap → Except OperationFault Heap} {before after : Progress σ}
    (reached : (do
      setHeap (← locate spanOf (change (← heap)))
      notifyMutation surroundings container) before = (.ok (), after)) :
    ∃ changed, change before.memory.heap = .ok changed ∧
      notifyMutation surroundings container
        { before with memory := ⟨changed, before.memory.scopes⟩ } = (.ok (), after) ∧
      after.memory = ⟨changed, before.memory.scopes⟩ := by
  obtain ⟨changed, made, rest⟩ := locate_bind_ok reached
  have told : notifyMutation surroundings container
      { before with memory := ⟨changed, before.memory.scopes⟩ } = (.ok (), after) := rest
  obtain ⟨_, -, same⟩ := passive_notifyMutation surroundings container
    { before with memory := ⟨changed, before.memory.scopes⟩ }
  rw [told] at same
  exact ⟨changed, made, told, same⟩

end Evaluation

namespace Plan

open Evaluation

variable (surroundings : Surroundings σ)

theorem anchored_of_rootless {node : Node} (rootless : rootName? node = none) (world : World σ) :
    (manner.eval surroundings node world).Ensures surroundings.scope fun value after =>
      world.memory.scopes.Agrees surroundings.scope after.memory.scopes ∧
        node.Anchored surroundings.scope value after.memory.scopes := by
  refine (keeps_eval surroundings node world).mono fun value after agrees => ⟨agrees, ?_⟩
  intro name root
  rw [rootless] at root
  cases root

/-- Expressions leave the names alone, and an array inside of a variable is inside of an array. -/
theorem anchored_eval : ∀ (node : Node) (world : World σ),
    (manner.eval surroundings node world).Ensures surroundings.scope fun value after =>
      world.memory.scopes.Agrees surroundings.scope after.memory.scopes ∧
        node.Anchored surroundings.scope value after.memory.scopes
  | .identifier span name, world => by
    rw [Manner.eval]
    refine ensures_act fun value after reached => ?_
    change Evaluation.lookup surroundings span name (world.progress .fresh) = _ at reached
    unfold Evaluation.lookup at reached
    rw [get_bind_apply, World.memory_progress] at reached
    cases looked : world.memory.scopes.lookup surroundings.scope name with
    | none =>
      rw [looked] at reached
      cases reached
    | some found =>
      rw [looked] at reached
      cases reached
      refine ⟨Arena.agrees_refl _ _, fun root same ref array => ⟨ref, ?_⟩⟩
      cases same
      exact array ▸ looked
  | .element span target index, world => by
    rw [Manner.eval]
    refine (anchored_eval target world).bind fun container inner ⟨start, anchored⟩ => ?_
    refine (keeps_eval surroundings index inner).bind fun position between agrees => ?_
    refine ensures_act fun value after reached => ?_
    obtain ⟨found, rfl⟩ := locate_ok (show locate (elementSpan span target index)
      (Value.element between.memory.heap container position) _ = _ from reached)
    refine ⟨start.trans agrees, fun name root ref array => ?_⟩
    subst array
    obtain ⟨outer, same⟩ := Value.array_of_element found
    exact anchored.later agrees name root outer same
  | .slice span target start stop, world => by
    rw [Manner.eval]
    refine (anchored_eval target world).bind fun container inner ⟨begun, anchored⟩ => ?_
    refine (keeps_eval surroundings start inner).bind fun first between agrees => ?_
    refine (keeps_eval surroundings stop between).bind fun last later agrees' => ?_
    refine ensures_act fun value after reached => ?_
    obtain ⟨computed, found, realized⟩ := locate_bind_ok
      (show (locate (sliceSpan span target start stop)
        (Value.slice later.memory.heap container first last) >>= realize) _ = _ from reached)
    have kept : world.memory.scopes.Agrees surroundings.scope later.memory.scopes :=
      (begun.trans agrees).trans agrees'
    cases realized
    refine ⟨kept, fun name root ref array => ?_⟩
    -- only a slice of an array is an array, so the chain of subscripts goes on through the container
    rcases Value.array_of_slice found with ⟨outer, same⟩ | ⟨characters, rfl⟩
    · exact anchored.later (agrees.trans agrees') name root outer same
    · cases array
  | .literal .., world | .unary .., world | .binary .., world | .call .., world | .array .., world
  | .assignment .., world | .choice .., world | .loop .., world | .definition .., world
  | .result .., world | .pass .., world | .deletion .., world =>
    anchored_of_rootless surroundings rfl world

end Plan

def Node.changes? : Node → Option String
  | .assignment _ (.element _ container _) _ | .assignment _ (.slice _ container _ _) _
  | .deletion _ (.element _ container _) | .deletion _ (.slice _ container _ _) =>
    Evaluation.rootName? container
  | _ => none

namespace Plan

open Evaluation

variable (surroundings : Surroundings σ)

theorem ensures_mutation {container : Node} {root : Value} {spanOf : Culprit → Span}
    {change : Heap → Except OperationFault Heap} {world : World σ}
    (only : ∀ heap changed, change heap = .ok changed → ∃ ref, root = .array ref)
    (anchored : container.Anchored surroundings.scope root world.memory.scopes) :
    (act (do
      setHeap (← locate spanOf (change (← heap)))
      notifyMutation surroundings container) world).Ensures surroundings.scope fun _ after =>
        ∀ name, rootName? container = some name →
          after.memory.scopes.NamesArray surroundings.scope name := by
  refine ensures_act fun _ after reached name root' => ?_
  obtain ⟨changed, made, -, same⟩ := mutation_ok reached
  obtain ⟨ref, array⟩ := only _ _ made
  change after.memory.scopes.NamesArray _ _
  rw [same]
  exact anchored name root' ref array

theorem ensures_elementUpdate {container index : Node} {spanOf : Culprit → Span}
    {change : Value → Value → Heap → Except OperationFault Heap}
    (only : ∀ root position heap changed, change root position heap = .ok changed →
      ∃ ref, root = .array ref) (world : World σ) :
    ((do
      let root ← manner.eval surroundings container
      let position ← manner.eval surroundings index
      act do
        setHeap (← locate spanOf (change root position (← heap)))
        notifyMutation surroundings container : Plan σ Unit) world).Ensures surroundings.scope
      fun _ after => ∀ name, rootName? container = some name →
        after.memory.scopes.NamesArray surroundings.scope name := by
  refine (anchored_eval surroundings container world).bind fun root inner ⟨_, anchored⟩ => ?_
  refine (keeps_eval surroundings index inner).bind fun position later agrees => ?_
  exact ensures_mutation surroundings (only root position) (anchored.later agrees)

theorem ensures_sliceUpdate {container start stop : Node} {spanOf : Culprit → Span}
    {change : Value → Value → Value → Heap → Except OperationFault Heap}
    (only : ∀ root first last heap changed, change root first last heap = .ok changed →
      ∃ ref, root = .array ref) (world : World σ) :
    ((do
      let root ← manner.eval surroundings container
      let first ← manner.eval surroundings start
      let last ← manner.eval surroundings stop
      act do
        setHeap (← locate spanOf (change root first last (← heap)))
        notifyMutation surroundings container : Plan σ Unit) world).Ensures surroundings.scope
      fun _ after => ∀ name, rootName? container = some name →
        after.memory.scopes.NamesArray surroundings.scope name := by
  refine (anchored_eval surroundings container world).bind fun root inner ⟨_, anchored⟩ => ?_
  refine (keeps_eval surroundings start inner).bind fun first between agrees => ?_
  refine (keeps_eval surroundings stop between).bind fun last later agrees' => ?_
  exact ensures_mutation surroundings (only root first last) (anchored.later (agrees.trans agrees'))

theorem ensures_assignTo (span : Span) (target valueNode : Node) (world : World σ) :
    (manner.assignTo surroundings target valueNode world).Ensures surroundings.scope fun _ after =>
      ∀ name, (Node.assignment span target valueNode).changes? = some name →
        after.memory.scopes.NamesArray surroundings.scope name := by
  refine (keeps_eval surroundings valueNode world).bind fun value begun _ => ?_
  cases target with
  | element span container index =>
    exact ensures_elementUpdate surroundings
      (fun _ _ _ _ made => Value.array_of_changeable made) begun
  | slice span container start stop =>
    exact ensures_sliceUpdate surroundings
      (fun _ _ _ _ _ made => Value.array_of_changeable made) begun
  | literal | identifier | unary | binary | call | array | assignment | choice | loop | definition
  | result | pass | deletion =>
    exact Course.ensures_of_always _ fun _ _ _ impossible => by cases impossible

theorem ensures_delete (span : Span) (target : Node) (world : World σ) :
    (manner.delete surroundings target world).Ensures surroundings.scope fun _ after =>
      ∀ name, (Node.deletion span target).changes? = some name →
        after.memory.scopes.NamesArray surroundings.scope name := by
  cases target with
  | element span container index =>
    exact ensures_elementUpdate surroundings
      (fun _ _ _ _ made => Value.array_of_changeable made) world
  | slice span container start stop =>
    exact ensures_sliceUpdate surroundings
      (fun _ _ _ _ _ made => Value.array_of_changeable made) world
  | literal | identifier | unary | binary | call | array | assignment | choice | loop | definition
  | result | pass | deletion =>
    exact Course.ensures_of_always _ fun _ _ _ impossible => by cases impossible

theorem ensures_exec (node : Node) (world : World σ) :
    (exec surroundings node world).Ensures surroundings.scope fun _ after =>
      ∀ name, node.changes? = some name →
        after.memory.scopes.NamesArray surroundings.scope name := by
  cases node with
  | assignment span target valueNode =>
    exact (ensures_assignTo surroundings span target valueNode world).bind fun _ _ named => named
  | deletion span target =>
    exact (ensures_delete surroundings span target world).bind fun _ _ named => named
  | literal | identifier | unary | binary | call | element | slice | array | choice | loop
  | definition | result | pass =>
    exact Course.ensures_of_always _ fun _ _ _ impossible => by cases impossible

end Plan

end TabScript
