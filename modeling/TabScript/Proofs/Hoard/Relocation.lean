import TabScript.Machine.Execution

/-! Scopes in other places.

No operation on values looks at the place of a scope, so all of them give the same when the scopes of
functions stand elsewhere. -/

set_option autoImplicit false

namespace TabScript

variable (place : ScopeId → ScopeId)

def Closure.relocate (made : Closure) : Closure :=
  { made with scope := place made.scope }

def Value.relocate : Value → Value
  | none => none
  | boolean truth => boolean truth
  | number value => number value
  | text characters => text characters
  | array ref => array ref
  | function (.closure made) => function (.closure (made.relocate place))
  | function (.builtin made) => function (.builtin made)

def Computed.relocate : Computed → Computed
  | value result => value (result.relocate place)
  | items results => items (results.map (Value.relocate place))

def Heap.relocate (heap : Heap) : Heap :=
  { heap with arrays := heap.arrays.map (List.map (Value.relocate place)) }

def Bindings.relocate (bindings : Bindings) : Bindings :=
  bindings.map fun bound => (bound.1, bound.2.relocate place)

def Scope.relocate (scope : Scope) : Scope :=
  { scope with
    parent := scope.parent.map place
    bindings := Bindings.relocate place scope.bindings }

namespace Value

@[simp] theorem relocate_none : none.relocate place = none := rfl

@[simp] theorem relocate_boolean (truth : Bool) : (boolean truth).relocate place = boolean truth := rfl

@[simp] theorem relocate_number (value : Float) : (number value).relocate place = number value := rfl

@[simp] theorem relocate_text (characters : String) :
    (text characters).relocate place = text characters := rfl

@[simp] theorem relocate_array (ref : ArrayRef) : (array ref).relocate place = array ref := rfl

@[simp] theorem relocate_closure (made : Closure) :
    (function (.closure made)).relocate place = function (.closure (made.relocate place)) := rfl

@[simp] theorem relocate_builtin (made : Builtin) :
    (function (.builtin made)).relocate place = function (.builtin made) := rfl

@[simp] theorem kind_relocate (value : Value) : (value.relocate place).kind = value.kind := by
  rcases value with _ | _ | _ | _ | _ | ⟨_ | _⟩ <;> rfl

@[simp] theorem truth?_relocate (value : Value) :
    (value.relocate place).truth? = value.truth? := by
  rcases value with _ | _ | _ | _ | _ | ⟨_ | _⟩ <;> rfl

@[simp] theorem isBuiltin_relocate (value : Value) :
    (value.relocate place).isBuiltin = value.isBuiltin := by
  rcases value with _ | _ | _ | _ | _ | ⟨_ | _⟩ <;> rfl

@[simp] theorem relocate_ofLiteral (literal : Option Literal) :
    (ofLiteral literal).relocate place = ofLiteral literal := by
  rcases literal with _ | _ | _ | _ <;> rfl

end Value

namespace Heap

@[simp] theorem size_relocate (heap : Heap) :
    (heap.relocate place).arrays.size = heap.arrays.size := by
  simp [relocate]

@[simp] theorem items_relocate (heap : Heap) (ref : ArrayRef) :
    (heap.relocate place).items ref = (heap.items ref).map (Value.relocate place) := by
  simp only [items, relocate, Array.getElem?_map]
  cases heap.arrays[ref.index]? <;> rfl

theorem allocate_relocate (heap : Heap) (items : List Value) :
    (heap.relocate place).allocate (items.map (Value.relocate place)) =
      ((heap.allocate items).1, (heap.allocate items).2.relocate place) := by
  simp [allocate, relocate]

theorem update_relocate (heap : Heap) (ref : ArrayRef) (items : List Value) :
    (heap.relocate place).update ref (items.map (Value.relocate place)) =
      (heap.update ref items).relocate place := by
  simp [update, relocate, Array.map_setIfInBounds]

theorem realize_relocate (heap : Heap) (computed : Computed) :
    (heap.relocate place).realize (computed.relocate place) =
      ((heap.realize computed).1.relocate place, (heap.realize computed).2.relocate place) := by
  cases computed with
  | value => rfl
  | items results => simp [realize, Computed.relocate, allocate_relocate, Value.relocate]

end Heap

namespace Value

variable (heap : Heap)

theorem equalBy_relocate (arrays : ArrayRef → ArrayRef → Bool) (first second : Value) :
    equalBy arrays (first.relocate place) (second.relocate place) = equalBy arrays first second := by
  rcases first with _ | _ | _ | _ | _ | ⟨_ | _⟩ <;>
    rcases second with _ | _ | _ | _ | _ | ⟨_ | _⟩ <;> rfl

theorem equalArrays_relocate (budget : Nat) (visiting : List (ArrayRef × ArrayRef))
    (first second : ArrayRef) :
    equalArrays (heap.relocate place) budget visiting first second =
      equalArrays heap budget visiting first second := by
  induction budget generalizing visiting first second with
  | zero => rfl
  | succ budget ih =>
    have same : equalArrays (heap.relocate place) budget ((first, second) :: visiting) =
        equalArrays heap budget ((first, second) :: visiting) := by
      funext left right
      exact ih _ _ _
    simp only [equalArrays, Heap.items_relocate, List.length_map, List.zip_map, List.all_map, same]
    congr 3
    funext pair
    exact equalBy_relocate place _ _ _

@[simp] theorem isEqual_relocate (first second : Value) :
    isEqual (heap.relocate place) (first.relocate place) (second.relocate place) =
      isEqual heap first second := by
  simp only [isEqual, equalBy_relocate, Heap.size_relocate]
  congr 1
  funext left right
  exact equalArrays_relocate place heap _ _ _ _

@[simp] theorem isSame_relocate (first second : Value) :
    isSame (heap.relocate place) (first.relocate place) (second.relocate place) =
      isSame heap first second := by
  have equal := isEqual_relocate place heap first second
  rcases first with _ | _ | _ | _ | _ | ⟨_ | _⟩ <;>
    rcases second with _ | _ | _ | _ | _ | ⟨_ | _⟩ <;> first | exact equal | rfl

theorem unary_relocate (operator : Operator) (operand : Value) :
    unary operator (operand.relocate place) =
      (unary operator operand).map (Value.relocate place) := by
  rcases operand with _ | _ | _ | _ | _ | ⟨_ | _⟩ <;> cases operator <;> rfl

theorem noneBinary_relocate (operator : Operator) (right : Value) :
    noneBinary operator (right.relocate place) =
      (noneBinary operator right).map (Computed.relocate place) := by
  unfold noneBinary
  split
  · rcases right with _ | _ | _ | _ | _ | ⟨_ | _⟩ <;> rfl
  · rfl

theorem booleanBinary_relocate (left : Bool) (operator : Operator) (right : Value) :
    booleanBinary left operator (right.relocate place) =
      (booleanBinary left operator right).map (Computed.relocate place) := by
  unfold booleanBinary
  cases booleanOperation? operator with
  | none => rfl
  | some combine => rcases right with _ | _ | _ | _ | _ | ⟨_ | _⟩ <;> rfl

theorem numberOperation?_relocate {operator : Operator}
    {combine : Float → Float → Except OperationFault Computed}
    (known : numberOperation? operator = some combine) (left right : Float) :
    (combine left right).map (Computed.relocate place) = combine left right := by
  cases operator <;> cases known <;> first | rfl | (dsimp only; split <;> rfl)

theorem numberBinary_relocate (left : Float) (operator : Operator) (right : Value) :
    numberBinary left operator (right.relocate place) =
      (numberBinary left operator right).map (Computed.relocate place) := by
  unfold numberBinary
  cases known : numberOperation? operator with
  | none => rfl
  | some combine =>
    rcases right with _ | _ | _ | _ | _ | ⟨_ | _⟩
    case number => exact (numberOperation?_relocate place known left _).symm
    all_goals rfl

theorem textOperation?_relocate {operator : Operator} {combine : String → String → Value}
    (known : textOperation? operator = some combine) (left right : String) :
    (combine left right).relocate place = combine left right := by
  cases operator <;> cases known <;> rfl

theorem textBinary_relocate (left : String) (operator : Operator) (right : Value) :
    textBinary left operator (right.relocate place) =
      (textBinary left operator right).map (Computed.relocate place) := by
  unfold textBinary
  cases known : textOperation? operator with
  | none => rfl
  | some combine =>
    rcases right with _ | _ | _ | _ | _ | ⟨_ | _⟩
    case text =>
      simp [simply, Except.map, Computed.relocate, textOperation?_relocate place known]
    all_goals rfl

theorem arrayBinary_relocate (left : ArrayRef) (operator : Operator) (right : Value) :
    arrayBinary (heap.relocate place) left operator (right.relocate place) =
      (arrayBinary heap left operator right).map (Computed.relocate place) := by
  have equal := fun other => isEqual_relocate place heap (array left) (array other)
  simp only [relocate_array] at equal
  unfold arrayBinary
  split
  · rcases right with _ | _ | _ | _ | other | ⟨_ | _⟩
    case array =>
      cases operator <;> simp [equal, simply, Except.map, Computed.relocate]
    all_goals rfl
  · rfl

theorem binary_relocate (operator : Operator) (left right : Value) :
    binary (heap.relocate place) operator (left.relocate place) (right.relocate place) =
      (binary heap operator left right).map (Computed.relocate place) := by
  unfold binary
  split
  · simp [simply, Except.map, Computed.relocate]
  · rcases left with _ | _ | _ | _ | _ | ⟨_ | _⟩
    · exact noneBinary_relocate place operator right
    · exact booleanBinary_relocate place _ operator right
    · exact numberBinary_relocate place _ operator right
    · exact textBinary_relocate place _ operator right
    · exact arrayBinary_relocate place heap _ operator right
    · rfl
    · rfl

theorem length_relocate (value : Value) :
    (value.relocate place).length (heap.relocate place) = value.length heap := by
  rcases value with _ | _ | _ | _ | _ | ⟨_ | _⟩ <;> simp [length, kind]

theorem integer_relocate (culprit : Culprit) (index : Value) :
    integer culprit (index.relocate place) = integer culprit index := by
  rcases index with _ | _ | _ | _ | _ | ⟨_ | _⟩ <;> rfl

@[simp] theorem elementPosition_relocate (index : Value) (length : Nat) :
    elementPosition (index.relocate place) length = elementPosition index length := by
  simp only [elementPosition, integer_relocate]

@[simp] theorem sliceRange_relocate (start stop : Value) (length : Nat) :
    sliceRange (start.relocate place) (stop.relocate place) length =
      sliceRange start stop length := by
  simp only [sliceRange, boundPosition, integer_relocate]

theorem element_relocate (target index : Value) :
    element (heap.relocate place) (target.relocate place) (index.relocate place) =
      (element heap target index).map (Value.relocate place) := by
  rcases target with _ | _ | _ | characters | ref | ⟨_ | _⟩
  case text =>
    simp only [relocate_text, element, elementPosition_relocate]
    cases elementPosition index characters.length <;> rfl
  case array =>
    simp only [relocate_array, element, Heap.items_relocate, List.length_map, elementPosition_relocate]
    cases elementPosition index (heap.items ref).length with
    | error fault => rfl
    | ok position =>
      simp only [bind, Except.bind, pure, Except.pure, Except.map, List.getD_eq_getElem?_getD,
        List.getElem?_map]
      cases (heap.items ref)[position]? <;> rfl
  all_goals rfl

theorem map_cut {α β : Type} (change : α → β) (elements : List α) (start stop : Nat) :
    cut (elements.map change) start stop = (cut elements start stop).map change := by
  simp [cut]

theorem map_splice {α β : Type} (change : α → β) (elements replacement : List α)
    (start stop : Nat) :
    splice (elements.map change) start stop (replacement.map change) =
      (splice elements start stop replacement).map change := by
  simp [splice]

theorem slice_relocate (target start stop : Value) :
    slice (heap.relocate place) (target.relocate place) (start.relocate place)
        (stop.relocate place) =
      (slice heap target start stop).map (Computed.relocate place) := by
  rcases target with _ | _ | _ | characters | ref | ⟨_ | _⟩
  case text =>
    simp only [relocate_text, slice, sliceRange_relocate]
    cases sliceRange start stop characters.length <;> rfl
  case array =>
    simp only [relocate_array, slice, Heap.items_relocate, List.length_map, sliceRange_relocate]
    cases sliceRange start stop (heap.items ref).length with
    | error fault => rfl
    | ok range => simp [bind, Except.bind, pure, Except.pure, Except.map, Computed.relocate, map_cut]
  all_goals rfl

@[simp] theorem changeable_relocate (target : Value) :
    changeable (target.relocate place) = changeable target := by
  rcases target with _ | _ | _ | _ | _ | ⟨_ | _⟩ <;> rfl

theorem setElement_relocate (target index value : Value) :
    setElement (heap.relocate place) (target.relocate place) (index.relocate place)
        (value.relocate place) =
      (setElement heap target index value).map (Heap.relocate place) := by
  simp only [setElement, changeable_relocate, Heap.items_relocate, List.length_map,
    elementPosition_relocate]
  cases changeable target with
  | error fault => rfl
  | ok ref =>
    simp only [bind, Except.bind]
    cases elementPosition index (heap.items ref).length with
    | error fault => rfl
    | ok position =>
      have spliced := map_splice (Value.relocate place) (heap.items ref) [value] position
        (position + 1)
      simp only [List.map_cons, List.map_nil] at spliced
      simp only [pure, Except.pure, Except.map, spliced, Heap.update_relocate]

theorem setSlice_relocate (target start stop value : Value) :
    setSlice (heap.relocate place) (target.relocate place) (start.relocate place)
        (stop.relocate place) (value.relocate place) =
      (setSlice heap target start stop value).map (Heap.relocate place) := by
  simp only [setSlice, changeable_relocate, Heap.items_relocate, List.length_map,
    sliceRange_relocate]
  cases changeable target with
  | error fault => rfl
  | ok ref =>
    simp only [bind, Except.bind]
    cases sliceRange start stop (heap.items ref).length with
    | error fault => rfl
    | ok range =>
      rcases value with _ | _ | _ | _ | other | ⟨_ | _⟩
      case array =>
        simp only [relocate_array, map_splice, Heap.update_relocate]
        rfl
      all_goals rfl

theorem deleteElement_relocate (target index : Value) :
    deleteElement (heap.relocate place) (target.relocate place) (index.relocate place) =
      (deleteElement heap target index).map (Heap.relocate place) := by
  simp only [deleteElement, changeable_relocate, Heap.items_relocate, List.length_map,
    elementPosition_relocate]
  cases changeable target with
  | error fault => rfl
  | ok ref =>
    simp only [bind, Except.bind]
    cases elementPosition index (heap.items ref).length with
    | error fault => rfl
    | ok position =>
      have spliced := map_splice (Value.relocate place) (heap.items ref) [] position (position + 1)
      rw [List.map_nil] at spliced
      simp only [pure, Except.pure, Except.map, spliced, Heap.update_relocate]

theorem deleteSlice_relocate (target start stop : Value) :
    deleteSlice (heap.relocate place) (target.relocate place) (start.relocate place)
        (stop.relocate place) =
      (deleteSlice heap target start stop).map (Heap.relocate place) := by
  simp only [deleteSlice, changeable_relocate, Heap.items_relocate, List.length_map,
    sliceRange_relocate]
  cases changeable target with
  | error fault => rfl
  | ok ref =>
    simp only [bind, Except.bind]
    cases sliceRange start stop (heap.items ref).length with
    | error fault => rfl
    | ok range =>
      have spliced := map_splice (Value.relocate place) (heap.items ref) [] range.1 range.2
      rw [List.map_nil] at spliced
      simp only [pure, Except.pure, Except.map, spliced, Heap.update_relocate]

theorem itemText_relocate (arrays : ArrayRef → String) (value : Value) :
    itemText arrays (value.relocate place) = itemText arrays value := by
  rcases value with _ | _ | _ | _ | _ | ⟨_ | _⟩ <;> rfl

theorem arrayText_relocate (budget : Nat) (ancestors : List ArrayRef) (ref : ArrayRef) :
    arrayText (heap.relocate place) budget ancestors ref = arrayText heap budget ancestors ref := by
  induction budget generalizing ancestors ref with
  | zero => rfl
  | succ budget ih =>
    have same : arrayText (heap.relocate place) budget (ref :: ancestors) =
        arrayText heap budget (ref :: ancestors) := funext fun other => ih _ other
    simp only [arrayText, Heap.items_relocate, List.map_map, same]
    congr 5
    funext value
    exact itemText_relocate place _ value

@[simp] theorem display_relocate (value : Value) :
    display (heap.relocate place) (value.relocate place) = display heap value := by
  have same : arrayText (heap.relocate place) = arrayText heap := by
    funext budget ancestors ref
    exact arrayText_relocate place heap budget ancestors ref
  rcases value with _ | _ | _ | _ | _ | ⟨_ | _⟩ <;>
    simp [display, itemText, same, Closure.relocate, Function.name]

theorem itemJson_relocate (arrays : ArrayRef → Json) (value : Value) :
    itemJson arrays (value.relocate place) = itemJson arrays value := by
  rcases value with _ | _ | _ | _ | _ | ⟨_ | _⟩ <;> rfl

theorem arrayJson_relocate (budget : Nat) (ancestors : List ArrayRef) (ref : ArrayRef) :
    arrayJson (heap.relocate place) budget ancestors ref = arrayJson heap budget ancestors ref := by
  induction budget generalizing ancestors ref with
  | zero => rfl
  | succ budget ih =>
    have same : arrayJson (heap.relocate place) budget (ref :: ancestors) =
        arrayJson heap budget (ref :: ancestors) := funext fun other => ih _ other
    simp only [arrayJson, Heap.items_relocate, List.map_map, same]
    congr 3
    funext value
    exact itemJson_relocate place _ value

@[simp] theorem toJson_relocate (value : Value) :
    toJson (heap.relocate place) (value.relocate place) = toJson heap value := by
  have same : arrayJson (heap.relocate place) = arrayJson heap := by
    funext budget ancestors ref
    exact arrayJson_relocate place heap budget ancestors ref
  simp only [toJson, itemJson_relocate, Heap.size_relocate, same]

mutual

theorem ofJson_relocate (heap : Heap) : ∀ json : Json,
    ofJson (heap.relocate place) json =
      (ofJson heap json).map fun found => (found.1.relocate place, found.2.relocate place)
  | .null | .boolean _ | .integer _ | .float _ | .text _ | .object _ => by
    rw [ofJson, ofJson]
    rfl
  | .array items => by
    rw [ofJson, ofJson, ofJsonItems_relocate heap items]
    cases ofJsonItems heap items with
    | none => rfl
    | some found => simp [Heap.allocate_relocate]

theorem ofJsonItems_relocate (heap : Heap) : ∀ items : List Json,
    ofJsonItems (heap.relocate place) items =
      (ofJsonItems heap items).map fun found =>
        (found.1.map (Value.relocate place), found.2.relocate place)
  | [] => by
    rw [ofJsonItems, ofJsonItems]
    rfl
  | item :: items => by
    rw [ofJsonItems, ofJsonItems, ofJson_relocate heap item]
    cases ofJson heap item with
    | none => rfl
    | some found =>
      simp only [Option.map_some]
      rw [ofJsonItems_relocate found.2 items]
      cases ofJsonItems found.2 items <;> rfl

end

end Value

def Evaluated.relocate (done : Evaluated) : Evaluated :=
  { done with value := done.value.relocate place }

def Replay.relocate (replay : Replay) : Replay :=
  { replay with slots := replay.slots.map (Option.map (Evaluated.relocate place)) }

def Taken.relocate : Taken → Taken
  | replayed value => replayed (value.relocate place)
  | fresh slot => fresh slot

namespace Replay

@[simp] theorem fresh_relocate : fresh.relocate place = fresh := by
  simp [fresh, relocate]

theorem fill_relocate (replay : Replay) (slot : Nat) (value : Value) :
    (replay.relocate place).fill slot (value.relocate place) =
      (replay.fill slot value).relocate place := by
  simp [fill, relocate, Array.map_setIfInBounds, Evaluated.relocate]

theorem suspend_relocate (replay : Replay) (slot : Nat) :
    (replay.relocate place).suspend slot = (replay.suspend slot).relocate place := by
  obtain ⟨slots, cursor, waiting, resumed⟩ := replay
  cases waiting <;> rfl

theorem deliver_relocate (replay : Replay) (value : Value) :
    (replay.relocate place).deliver (value.relocate place) =
      (replay.deliver value).relocate place := by
  obtain ⟨slots, cursor, waiting, resumed⟩ := replay
  rcases waiting with _ | ⟨slot, stop⟩
  · rfl
  · by_cases inside : slot < slots.size <;>
      simp [deliver, relocate, inside, Array.map_setIfInBounds, Evaluated.relocate]

theorem take_relocate (replay : Replay) :
    (replay.relocate place).take =
      (replay.take.1.relocate place, replay.take.2.relocate place) := by
  obtain ⟨slots, cursor, waiting, resumed⟩ := replay
  simp only [take, relocate, Array.getElem?_map]
  rcases slots[cursor]? with _ | _ | done <;> simp [Taken.relocate, Evaluated.relocate]

end Replay

def Activity.relocate (activity : Activity) : Activity :=
  { activity with scope := place activity.scope, replay := activity.replay.relocate place }

def Continuation.relocate : Continuation → Continuation
  | entering closure arguments =>
    entering (closure.relocate place) (arguments.map (Value.relocate place))
  | running activity => running (activity.relocate place)

abbrev Stack.relocate (stack : Stack) : Stack := stack.map (Continuation.relocate place)

def Flow.relocate : Flow → Flow
  | next => next
  | enter inner => enter (inner.relocate place)
  | leave value => leave (value.relocate place)

def Interrupt.relocate : Interrupt → Interrupt
  | fail fault => fail fault
  | suspend closure arguments =>
    suspend (closure.relocate place) (arguments.map (Value.relocate place))

def Flow.relocated : Except Interrupt Flow → Except Interrupt Flow
  | .ok flow => .ok (flow.relocate place)
  | .error interrupt => .error (interrupt.relocate place)

namespace Activity

@[simp] theorem current?_relocate (activity : Activity) :
    (activity.relocate place).current? = activity.current? := rfl

@[simp] theorem sequel_relocate (activity : Activity) :
    (activity.relocate place).sequel = activity.sequel := rfl

theorem next?_relocate (activity : Activity) :
    (activity.relocate place).next? = activity.next?.map (relocate place) := by
  obtain ⟨work, scope, sequel, replay⟩ := activity
  rcases work with remaining | loop
  · rcases remaining with _ | ⟨first, _ | ⟨second, remaining⟩⟩ <;> cases sequel <;>
      simp [next?, relocate]
  · rfl

theorem block_relocate (statements : List Node) (scope : ScopeId) :
    (block statements scope).relocate place = block statements (place scope) := by
  simp [block, relocate]

theorem round_relocate (statements : List Node) (scope : ScopeId) (loop : Node) :
    (round statements scope loop).relocate place = round statements (place scope) loop := by
  simp [round, relocate]

theorem header_relocate (loop : Node) (scope : ScopeId) :
    (header loop scope).relocate place = header loop (place scope) := by
  simp [header, relocate]

theorem body_relocate (closure : Closure) (scope : ScopeId) :
    (body closure scope).relocate place = body (closure.relocate place) (place scope) := by
  simp [body, relocate, Closure.relocate]

end Activity

namespace Stack

@[simp] theorem isCall_relocate (continuation : Continuation) :
    (continuation.relocate place).isCall = continuation.isCall := by
  cases continuation <;> rfl

@[simp] theorem scope_relocate (continuation : Continuation) :
    (continuation.relocate place).scope = place continuation.scope := by
  cases continuation <;> rfl

theorem deliver_relocate (value : Value) (stack : Stack) :
    deliver (value.relocate place) (relocate place stack) = relocate place (deliver value stack) := by
  rcases stack with _ | ⟨_ | activity, rest⟩
  · rfl
  · rfl
  · simp [deliver, relocate, Continuation.relocate, Continuation.deliver, Activity.relocate,
      Replay.deliver_relocate]

theorem unwind_relocate (stack : Stack) :
    unwind (relocate place stack) =
      (unwind stack).map fun left => (place left.1, relocate place left.2) := by
  induction stack with
  | nil => rfl
  | cons top rest ih =>
    simp only [relocate, List.map_cons, unwind, isCall_relocate, scope_relocate] at ih ⊢
    split
    · rfl
    · exact ih

theorem resume_relocate (activity : Activity) (rest : Stack) :
    resume (activity.relocate place) (relocate place rest) = relocate place (resume activity rest) := by
  simp only [resume, Activity.next?_relocate]
  cases activity.next? <;> rfl

end Stack

end TabScript
