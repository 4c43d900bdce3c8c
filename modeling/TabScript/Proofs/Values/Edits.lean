import TabScript.Machine.Execution
import TabScript.Proofs.Values.Keeps

/-! Changes of arrays in place.

An edit takes the items from one place up to another out of an array and puts others, or none, there. What
it puts there is known before the array is touched, so the array may be put into itself. Whoever holds the
array sees the new items, and no other array has changed. -/

set_option autoImplicit false

namespace TabScript

/-- A change of an array, with the values that say where and what. -/
inductive Edit where
  | setElement (index value : Value)
  | setSlice (start stop value : Value)
  | deleteElement (index : Value)
  | deleteSlice (start stop : Value)

def Value.PointsTo (index : Value) (length place : Nat) : Prop :=
  ∃ number whole, index = .number number ∧ Number.toInt? number = some whole ∧
    (place : Int) = Value.resolve (Value.saturate whole) length

namespace Edit

/-- The items of the array between these places go. -/
def Takes (length start stop : Nat) : Edit → Prop
  | setElement index _ | deleteElement index =>
    index.PointsTo length start ∧ start < length ∧ stop = start + 1
  | setSlice first last _ | deleteSlice first last =>
    ∃ other, first.PointsTo length start ∧ start ≤ length ∧ last.PointsTo length other ∧
      other ≤ length ∧ stop = max start other

/-- These items come in their place. Those of another array are the ones it has before the edit. -/
inductive Puts (heap : Heap) : Edit → List Value → Prop where
  | value (index value : Value) : Puts heap (setElement index value) [value]
  | items (start stop : Value) (other : ArrayRef) :
    Puts heap (setSlice start stop (.array other)) (heap.items other)
  | noValue (index : Value) : Puts heap (deleteElement index) []
  | noItems (start stop : Value) : Puts heap (deleteSlice start stop) []

def perform (heap : Heap) (target : Value) : Edit → Except OperationFault Heap
  | setElement index value => Value.setElement heap target index value
  | setSlice start stop value => Value.setSlice heap target start stop value
  | deleteElement index => Value.deleteElement heap target index
  | deleteSlice start stop => Value.deleteSlice heap target start stop

end Edit

/-- One array has other items between two places, and nothing else has changed. -/
structure Heap.Spliced (before : Heap) (ref : ArrayRef) (start stop : Nat) (replacement : List Value)
    (after : Heap) : Prop where
  items : after.items ref = (before.items ref).take start ++ replacement ++ (before.items ref).drop stop
  others : ∀ other, other ≠ ref → after.items other = before.items other
  arrays : after.arrays.size = before.arrays.size
  identities : after.identities = before.identities

namespace Heap

variable {heap after : Heap} {ref : ArrayRef} {start stop : Nat} {replacement : List Value}

theorem spliced_update (present : heap.Has ref) (start stop : Nat) (replacement : List Value) :
    heap.Spliced ref start stop replacement
      (heap.update ref (Value.splice (heap.items ref) start stop replacement)) where
  items := items_update_same _ present
  others other differ := items_update_of_ne heap _ differ
  arrays := by simp [update]
  identities := rfl

theorem eq_of_items {first second : Heap} (same : ∀ ref, first.items ref = second.items ref)
    (size : first.arrays.size = second.arrays.size) (identities : first.identities = second.identities) :
    first = second := by
  obtain ⟨arrays, count⟩ := first
  obtain ⟨arrays', count'⟩ := second
  have each : arrays = arrays' := by
    refine Array.ext size fun index inside inside' => ?_
    have here := same ⟨index⟩
    simpa [Heap.items, Array.getElem?_eq_getElem inside, Array.getElem?_eq_getElem inside'] using here
  cases each
  cases identities
  rfl

theorem Spliced.eq_update (spliced : heap.Spliced ref start stop replacement after)
    (present : heap.Has ref) :
    after = heap.update ref (Value.splice (heap.items ref) start stop replacement) := by
  have made := spliced_update present start stop replacement
  refine eq_of_items (fun other => ?_) (spliced.arrays.trans made.arrays.symm)
    (spliced.identities.trans made.identities.symm)
  by_cases same : other = ref
  · rw [same, spliced.items, made.items]
  · rw [spliced.others other same, made.others other same]

end Heap

namespace Value

variable {index start stop : Value} {culprit : Culprit} {length place : Nat}

theorem integer_ok_iff {whole : Int} : integer culprit index = .ok whole ↔
    ∃ number exact, index = .number number ∧ Number.toInt? number = some exact ∧ whole = saturate exact := by
  constructor
  · intro found
    cases index with
    | number number =>
      rw [integer] at found
      cases exact : Number.toInt? number with
      | none => rw [exact] at found; cases found
      | some whole =>
        rw [exact] at found
        cases found
        exact ⟨number, whole, rfl, exact, rfl⟩
    | none | boolean | text | array | function => cases found
  · rintro ⟨number, exact, rfl, found, rfl⟩
    simp only [integer, found]

theorem pointsTo_iff (culprit : Culprit) : index.PointsTo length place ↔
    ∃ whole, integer culprit index = .ok whole ∧ (place : Int) = resolve whole length := by
  simp only [integer_ok_iff]
  constructor
  · rintro ⟨number, exact, named, known, same⟩
    exact ⟨_, ⟨number, exact, named, known, rfl⟩, same⟩
  · rintro ⟨_, ⟨number, exact, named, known, rfl⟩, same⟩
    exact ⟨number, exact, named, known, same⟩

theorem elementPosition_ok_iff : elementPosition index length = .ok place ↔
    index.PointsTo length place ∧ place < length := by
  constructor
  · intro found
    obtain ⟨whole, read, found⟩ := except_bind_ok found
    dsimp only at found
    split at found
    · cases found
    · cases found
      exact ⟨(pointsTo_iff .operand).2 ⟨whole, read, by omega⟩, by omega⟩
  · rintro ⟨points, inside⟩
    obtain ⟨whole, read, same⟩ := (pointsTo_iff .operand).1 points
    have within : ¬(resolve whole length < 0 ∨ (length : Int) ≤ resolve whole length) := by omega
    rw [elementPosition, read]
    change (if _ then _ else _) = _
    rw [if_neg within, ← same]
    rfl

/-- The end of a slice may also be behind the last element. -/
theorem boundPosition_ok_iff : boundPosition culprit index length = .ok place ↔
    index.PointsTo length place ∧ place ≤ length := by
  constructor
  · intro found
    obtain ⟨whole, read, found⟩ := except_bind_ok found
    dsimp only at found
    split at found
    · cases found
    · cases found
      exact ⟨(pointsTo_iff culprit).2 ⟨whole, read, by omega⟩, by omega⟩
  · rintro ⟨points, inside⟩
    obtain ⟨whole, read, same⟩ := (pointsTo_iff culprit).1 points
    have within : ¬(resolve whole length < 0 ∨ (length : Int) < resolve whole length) := by omega
    rw [boundPosition, read]
    change (if _ then _ else _) = _
    rw [if_neg within, ← same]
    rfl

theorem sliceRange_ok_iff {first last : Nat} : sliceRange start stop length = .ok (first, last) ↔
    ∃ other, start.PointsTo length first ∧ first ≤ length ∧ stop.PointsTo length other ∧
      other ≤ length ∧ last = max first other := by
  constructor
  · intro found
    obtain ⟨begins, read, found⟩ := except_bind_ok found
    obtain ⟨ends, read', found⟩ := except_bind_ok found
    cases found
    obtain ⟨from_, within⟩ := boundPosition_ok_iff.1 read
    obtain ⟨upTo, within'⟩ := boundPosition_ok_iff.1 read'
    exact ⟨ends, from_, within, upTo, within', rfl⟩
  · rintro ⟨other, from_, within, upTo, within', rfl⟩
    rw [sliceRange, boundPosition_ok_iff.2 ⟨from_, within⟩]
    change boundPosition .sliceStop stop length >>= _ = _
    rw [boundPosition_ok_iff.2 ⟨upTo, within'⟩]
    rfl

end Value

namespace Edit

variable {heap after : Heap} {target : Value} {edit : Edit}

/-- An edit is carried out just if the target is an array that has the places, and what comes there is at
hand. -/
theorem perform_ok_iff : edit.perform heap target = .ok after ↔
    ∃ ref start stop replacement, target = .array ref ∧ edit.Takes (heap.items ref).length start stop ∧
      edit.Puts heap replacement ∧
      after = heap.update ref (Value.splice (heap.items ref) start stop replacement) := by
  constructor
  · intro reached
    cases edit with
    | setElement index value =>
      replace reached : Value.setElement heap target index value = .ok after := reached
      obtain ⟨ref, found, reached⟩ := except_bind_ok reached
      obtain ⟨place, points, reached⟩ := except_bind_ok reached
      cases reached
      obtain rfl := Value.eq_of_changeable found
      obtain ⟨points, inside⟩ := Value.elementPosition_ok_iff.1 points
      exact ⟨ref, place, _, _, rfl, ⟨points, inside, rfl⟩, .value index value, rfl⟩
    | setSlice start stop value =>
      replace reached : Value.setSlice heap target start stop value = .ok after := reached
      obtain ⟨ref, found, reached⟩ := except_bind_ok reached
      obtain ⟨⟨first, last⟩, range, reached⟩ := except_bind_ok reached
      cases value with
      | array other =>
        cases reached
        obtain rfl := Value.eq_of_changeable found
        exact ⟨ref, first, last, _, rfl, Value.sliceRange_ok_iff.1 range, .items start stop other, rfl⟩
      | none | boolean | number | text | function => cases reached
    | deleteElement index =>
      replace reached : Value.deleteElement heap target index = .ok after := reached
      obtain ⟨ref, found, reached⟩ := except_bind_ok reached
      obtain ⟨place, points, reached⟩ := except_bind_ok reached
      cases reached
      obtain rfl := Value.eq_of_changeable found
      obtain ⟨points, inside⟩ := Value.elementPosition_ok_iff.1 points
      exact ⟨ref, place, _, _, rfl, ⟨points, inside, rfl⟩, .noValue index, rfl⟩
    | deleteSlice start stop =>
      replace reached : Value.deleteSlice heap target start stop = .ok after := reached
      obtain ⟨ref, found, reached⟩ := except_bind_ok reached
      obtain ⟨⟨first, last⟩, range, reached⟩ := except_bind_ok reached
      cases reached
      obtain rfl := Value.eq_of_changeable found
      exact ⟨ref, first, last, _, rfl, Value.sliceRange_ok_iff.1 range, .noItems start stop, rfl⟩
  · rintro ⟨ref, first, last, replacement, rfl, takes, puts, rfl⟩
    cases puts with
    | value index value | noValue index =>
      obtain ⟨points, inside, rfl⟩ := takes
      have found := Value.elementPosition_ok_iff.2 ⟨points, inside⟩
      simp only [perform, Value.setElement, Value.deleteElement, Value.changeable, found, bind, Except.bind,
        pure, Except.pure]
    | items start stop other | noItems start stop =>
      have found := Value.sliceRange_ok_iff.2 takes
      simp only [perform, Value.setSlice, Value.deleteSlice, Value.changeable, found, bind, Except.bind, pure,
        Except.pure]

end Edit

namespace Evaluation

variable {σ : Type} (surroundings : Surroundings σ)

/-- Carries out an edit, and blames the part of the statement that is at fault. -/
def perform (spanOf : Culprit → Span) (edit : Edit) (target : Value) : Evaluation σ Unit := do
  setHeap (← locate spanOf (edit.perform (← heap) target))

theorem perform_apply (spanOf : Culprit → Span) (edit : Edit) (target : Value) (progress : Progress σ) :
    perform spanOf edit target progress =
      match edit.perform progress.memory.heap target with
      | .error fault => (.error (.fail ⟨.operation fault, spanOf fault.culprit⟩), progress)
      | .ok after => (.ok (), { progress with memory := { progress.memory with heap := after } }) := by
  obtain ⟨⟨heap, scopes⟩, replay, host, events, calls⟩ := progress
  change ((locate spanOf (edit.perform heap target) >>= setHeap : Evaluation σ Unit) _) = _
  rw [bind_apply]
  cases edit.perform heap target <;> rfl

/-- When all its parts are evaluated, an assignment to a part of an array or a deletion carries out an edit,
and the hooks are told. -/
structure Edits (surroundings : Surroundings σ) : Prop where
  setElement (span : Span) (container index valueNode : Node) :
    assignTo surroundings (.element span container index) valueNode = (do
      let value ← eval surroundings valueNode
      let root ← eval surroundings container
      let position ← eval surroundings index
      perform (elementSpan span container index) (.setElement position value) root
      notifyMutation surroundings container)
  setSlice (span : Span) (container start stop valueNode : Node) :
    assignTo surroundings (.slice span container start stop) valueNode = (do
      let value ← eval surroundings valueNode
      let root ← eval surroundings container
      let first ← eval surroundings start
      let last ← eval surroundings stop
      perform (fun culprit => if culprit = .operand then valueNode.span
        else sliceSpan span container start stop culprit) (.setSlice first last value) root
      notifyMutation surroundings container)
  deleteElement (span : Span) (container index : Node) :
    delete surroundings (.element span container index) = (do
      let root ← eval surroundings container
      let position ← eval surroundings index
      perform (elementSpan span container index) (.deleteElement position) root
      notifyMutation surroundings container)
  deleteSlice (span : Span) (container start stop : Node) :
    delete surroundings (.slice span container start stop) = (do
      let root ← eval surroundings container
      let first ← eval surroundings start
      let last ← eval surroundings stop
      perform (sliceSpan span container start stop) (.deleteSlice first last) root
      notifyMutation surroundings container)

theorem edits (surroundings : Surroundings σ) : Edits surroundings := by
  constructor <;> intros <;> simp only [assignTo, delete, perform, bind_assoc, Edit.perform]

end Evaluation

/-- An edit of an array that is there is carried out just if its places are there and the items to come are at
hand. Then the array has its first items, the new ones as they were before, and its last items, and no other
array has changed, whoever holds them. An edit that fails changes nothing. All that statements do to arrays in
place they do by edits. -/
theorem Edit.perform_splices {heap : Heap} {target : Value} (edit : Edit)
    (present : ∀ ref, target = .array ref → heap.Has ref) :
    (∀ after, edit.perform heap target = .ok after ↔
      ∃ ref start stop replacement, target = .array ref ∧
        edit.Takes (heap.items ref).length start stop ∧ edit.Puts heap replacement ∧
        heap.Spliced ref start stop replacement after) ∧
    (∀ (σ : Type) (spanOf : Culprit → Span) (progress : Progress σ) (fault : OperationFault),
      progress.memory.heap = heap → edit.perform heap target = .error fault →
        Evaluation.perform spanOf edit target progress =
          (.error (.fail ⟨.operation fault, spanOf fault.culprit⟩), progress)) ∧
    ∀ (σ : Type) (surroundings : Surroundings σ), Evaluation.Edits surroundings := by
  refine ⟨fun after => perform_ok_iff.trans ?_, ?_, fun σ => Evaluation.edits⟩
  · constructor
    · rintro ⟨ref, start, stop, replacement, named, takes, puts, rfl⟩
      exact ⟨ref, start, stop, replacement, named, takes, puts,
        Heap.spliced_update (present ref named) start stop replacement⟩
    · rintro ⟨ref, start, stop, replacement, named, takes, puts, spliced⟩
      exact ⟨ref, start, stop, replacement, named, takes, puts, spliced.eq_update (present ref named)⟩
  · rintro σ spanOf progress fault rfl failed
    rw [Evaluation.perform_apply, failed]

def Heap.coiled : Heap := ⟨#[[.array ⟨0⟩, .none]], 0⟩

/-- The items of the array that holds itself are put into the array itself. -/
theorem Edit.perform_splices_itself :
    Heap.coiled.Has ⟨0⟩ ∧ ∀ after,
      (setSlice (.number 1) (.number 1) (.array ⟨0⟩)).perform Heap.coiled (.array ⟨0⟩) = .ok after ↔
        ∃ ref start stop replacement, Value.array ⟨0⟩ = .array ref ∧
          (setSlice (.number 1) (.number 1) (.array ⟨0⟩)).Takes (Heap.coiled.items ref).length start stop ∧
          (setSlice (.number 1) (.number 1) (.array ⟨0⟩)).Puts Heap.coiled replacement ∧
          Heap.coiled.Spliced ref start stop replacement after := by
  have present : Heap.coiled.Has ⟨0⟩ := Nat.one_pos
  refine ⟨present, (perform_splices (setSlice (.number 1) (.number 1) (.array ⟨0⟩)) fun ref named => ?_).1⟩
  cases named
  exact present

end TabScript
