import TabScript.Proofs.Replay.Log

/-! What the operations on values keep.

An operation gives a plain value, an item of an array at hand, or items of such arrays. So it keeps every
property that all plain values have, and that the items of an array have if the array has it. -/

set_option autoImplicit false

namespace TabScript

structure Value.Plain (holds : Value → Prop) : Prop where
  none : holds .none
  boolean (truth : Bool) : holds (.boolean truth)
  number (number : Float) : holds (.number number)
  text (characters : String) : holds (.text characters)

structure Heap.Keeps (holds : Value → Prop) (heap : Heap) : Prop extends Value.Plain holds where
  items {ref : ArrayRef} : holds (.array ref) → ∀ item ∈ heap.items ref, holds item

def Computed.All (holds : Value → Prop) : Computed → Prop
  | .value made => holds made
  | .items made => ∀ item ∈ made, holds item

def Heap.Changes (values : List Value) (before after : Heap) : Prop :=
  ∃ ref items, after = before.update ref items ∧
    ∀ holds : Value → Prop, before.Keeps holds → (∀ value ∈ values, holds value) →
      holds (.array ref) ∧ ∀ item ∈ items, holds item

namespace Heap

/-- What stands in an array after a new one is made stood there before, or stands in the new one. -/
theorem mem_items_allocate {heap : Heap} {items : List Value} {ref : ArrayRef} {item : Value}
    (inside : item ∈ (heap.allocate items).2.items ref) :
    item ∈ heap.items ref ∨ (ref = (heap.allocate items).1 ∧ item ∈ items) := by
  by_cases present : heap.Has ref
  · rw [items_allocate_of_has heap items present] at inside
    exact .inl inside
  · by_cases new : ref.index = heap.arrays.size
    · have same : ref = (heap.allocate items).1 := by
        cases ref
        simp_all [Heap.allocate]
      rw [same, items_allocate_same] at inside
      exact .inr ⟨same, inside⟩
    · have beyond : heap.arrays.size < ref.index := by
        simp only [Has, Nat.not_lt] at present
        omega
      simp [Heap.items, Heap.allocate, Array.getElem?_push, new,
        Array.getElem?_eq_none (Nat.le_of_lt beyond)] at inside

theorem mem_items_update {heap : Heap} {ref other : ArrayRef} {items : List Value} {item : Value}
    (inside : item ∈ (heap.update ref items).items other) :
    item ∈ heap.items other ∨ item ∈ items := by
  by_cases same : other = ref
  · subst same
    by_cases present : heap.Has other
    · rw [items_update_same items present] at inside
      exact .inr inside
    · simp only [Has, Nat.not_lt] at present
      simp [Heap.items, Heap.update, Array.setIfInBounds, Nat.not_lt.2 present] at inside
  · rw [items_update_of_ne heap items same] at inside
    exact .inl inside

end Heap

namespace Value

variable {holds : Value → Prop} {heap : Heap}

theorem Plain.unary (plain : Plain holds) {operator : Operator} {operand value : Value}
    (reached : Value.unary operator operand = .ok value) : holds value := by
  rcases operand with _ | _ | _ | _ | _ | ⟨_ | _⟩ <;> cases operator <;> cases reached <;>
    first | exact plain.number _ | exact plain.boolean _

theorem Plain.numberOperation? (plain : Plain holds) {operator : Operator}
    {combine : Float → Float → Except OperationFault Computed}
    (known : Value.numberOperation? operator = some combine) {left right : Float} {computed : Computed}
    (reached : combine left right = .ok computed) : computed.All holds := by
  cases operator <;> cases known <;> dsimp only at reached
  case divide | modulo =>
    split at reached
    · cases reached
    · cases reached
      exact plain.number _
  all_goals
    cases reached
    first | exact plain.number _ | exact plain.boolean _

theorem Plain.textOperation? (plain : Plain holds) {operator : Operator}
    {combine : String → String → Value} (known : Value.textOperation? operator = some combine)
    (left right : String) : holds (combine left right) := by
  cases operator <;> cases known <;> first | exact plain.text _ | exact plain.boolean _

theorem keeps_binary (keeps : heap.Keeps holds) {operator : Operator} {left right : Value}
    (first : holds left) (second : holds right) {computed : Computed}
    (reached : binary heap operator left right = .ok computed) : computed.All holds := by
  unfold binary at reached
  split at reached
  · cases reached
    exact keeps.boolean _
  · rcases left with _ | left | left | left | left | _
    · simp only [noneBinary] at reached
      split at reached
      · cases right <;> cases reached
        exact keeps.boolean _
      · cases reached
    · simp only [booleanBinary] at reached
      cases known : booleanOperation? operator with
      | none => simp only [known] at reached; cases reached
      | some combine =>
        simp only [known] at reached
        cases right <;> cases reached
        exact keeps.boolean _
    · simp only [numberBinary] at reached
      cases known : numberOperation? operator with
      | none => simp only [known] at reached; cases reached
      | some combine =>
        simp only [known] at reached
        cases right with
        | number right => exact keeps.toPlain.numberOperation? known reached
        | none | boolean | text | array | function => cases reached
    · simp only [textBinary] at reached
      cases known : textOperation? operator with
      | none => simp only [known] at reached; cases reached
      | some combine =>
        simp only [known] at reached
        cases right with
        | text right =>
          cases reached
          exact keeps.toPlain.textOperation? known left right
        | none | boolean | number | array | function => cases reached
    · simp only [arrayBinary] at reached
      split at reached
      · cases right with
        | array right =>
          have joined : ∀ item ∈ heap.items left ++ heap.items right, holds item := by
            intro item inside
            rcases List.mem_append.1 inside with inside | inside
            · exact keeps.items first item inside
            · exact keeps.items second item inside
          cases operator <;> cases reached <;> first | exact joined | exact keeps.boolean _
        | none | boolean | number | text | function => cases reached
      · cases reached
    · cases reached

theorem keeps_cut {items : List Value} (admitted : ∀ item ∈ items, holds item)
    (start stop : Nat) : ∀ item ∈ cut items start stop, holds item := fun item inside =>
  admitted item (List.mem_of_mem_take (List.mem_of_mem_drop inside))

theorem keeps_splice {items replacement : List Value} (admitted : ∀ item ∈ items, holds item)
    (others : ∀ item ∈ replacement, holds item) (start stop : Nat) :
    ∀ item ∈ splice items start stop replacement, holds item := by
  intro item inside
  simp only [splice, List.append_assoc, List.mem_append] at inside
  rcases inside with inside | inside | inside
  · exact admitted item (List.mem_of_mem_take inside)
  · exact others item inside
  · exact admitted item (List.mem_of_mem_drop inside)

theorem keeps_element (keeps : heap.Keeps holds) {target index value : Value}
    (admitted : holds target) (reached : element heap target index = .ok value) : holds value := by
  cases target with
  | text characters =>
    obtain ⟨position, -, found⟩ := except_bind_ok reached
    cases found
    exact keeps.text _
  | array ref =>
    obtain ⟨position, -, found⟩ := except_bind_ok reached
    cases found
    rw [List.getD_eq_getElem?_getD]
    cases present : (heap.items ref)[position]? with
    | none => exact keeps.none
    | some item => exact keeps.items admitted item (List.mem_of_getElem? present)
  | none | boolean | number | function => cases reached

theorem keeps_slice (keeps : heap.Keeps holds) {target start stop : Value} {computed : Computed}
    (admitted : holds target) (reached : slice heap target start stop = .ok computed) :
    computed.All holds := by
  cases target with
  | text characters =>
    obtain ⟨range, -, found⟩ := except_bind_ok reached
    cases found
    exact keeps.text _
  | array ref =>
    obtain ⟨range, -, found⟩ := except_bind_ok reached
    cases found
    exact keeps_cut (keeps.items admitted) _ _
  | none | boolean | number | function => cases reached

theorem eq_of_changeable {target : Value} {ref : ArrayRef} (reached : changeable target = .ok ref) :
    target = .array ref := by
  cases target <;> cases reached
  rfl

theorem changes_splice {values : List Value} {ref : ArrayRef} {replacement : List Value}
    (known : .array ref ∈ values)
    (others : ∀ holds : Value → Prop, heap.Keeps holds → (∀ value ∈ values, holds value) →
      ∀ item ∈ replacement, holds item) (start stop : Nat) :
    heap.Changes values (heap.update ref (splice (heap.items ref) start stop replacement)) :=
  ⟨ref, _, rfl, fun holds keeps all => ⟨all _ known,
    keeps_splice (keeps.items (all _ known)) (others holds keeps all) start stop⟩⟩

theorem changes_setElement {target index value : Value} {changed : Heap}
    (reached : setElement heap target index value = .ok changed) :
    heap.Changes [target, value] changed := by
  obtain ⟨ref, found, reached⟩ := except_bind_ok reached
  obtain ⟨position, -, reached⟩ := except_bind_ok reached
  cases reached
  obtain rfl := eq_of_changeable found
  refine changes_splice (by simp) (fun holds _ all item inside => ?_) _ _
  obtain rfl := List.mem_singleton.1 inside
  exact all item (by simp)

theorem changes_setSlice {target start stop value : Value} {changed : Heap}
    (reached : setSlice heap target start stop value = .ok changed) :
    heap.Changes [target, value] changed := by
  obtain ⟨ref, found, reached⟩ := except_bind_ok reached
  obtain ⟨range, -, ends⟩ := except_bind_ok reached
  obtain rfl := eq_of_changeable found
  cases value with
  | array other =>
    cases ends
    exact changes_splice (by simp) (fun holds keeps all => keeps.items (all _ (by simp))) _ _
  | none | boolean | number | text | function => cases ends

theorem changes_deleteElement {target index : Value} {changed : Heap}
    (reached : deleteElement heap target index = .ok changed) : heap.Changes [target] changed := by
  obtain ⟨ref, found, reached⟩ := except_bind_ok reached
  obtain ⟨position, -, reached⟩ := except_bind_ok reached
  cases reached
  obtain rfl := eq_of_changeable found
  exact changes_splice (by simp) (by simp) _ _

theorem changes_deleteSlice {target start stop : Value} {changed : Heap}
    (reached : deleteSlice heap target start stop = .ok changed) :
    heap.Changes [target] changed := by
  obtain ⟨ref, found, reached⟩ := except_bind_ok reached
  obtain ⟨range, -, reached⟩ := except_bind_ok reached
  cases reached
  obtain rfl := eq_of_changeable found
  exact changes_splice (by simp) (by simp) _ _

end Value

/-- What is good about a heap stays when an array of good items is made, the new array is as good as its
items, and what holds of a value still holds. -/
structure Heap.Makes (good : Heap → Prop) (holds : Heap → Value → Prop) : Prop where
  keeps {heap : Heap} : good heap → heap.Keeps (holds heap)
  allocate {heap : Heap} {items : List Value} : good heap → (∀ item ∈ items, holds heap item) →
    good (heap.allocate items).2 ∧ holds (heap.allocate items).2 (.array (heap.allocate items).1)
  grows {heap : Heap} (items : List Value) {value : Value} : holds heap value →
    holds (heap.allocate items).2 value

namespace Heap.Makes

variable {good : Heap → Prop} {holds : Heap → Value → Prop} {heap : Heap}

theorem realize (makes : Makes good holds) (fine : good heap) {computed : Computed} (all : computed.All (holds heap)) :
    good (heap.realize computed).2 ∧ holds (heap.realize computed).2 (heap.realize computed).1 ∧
      ∀ value, holds heap value → holds (heap.realize computed).2 value := by
  cases computed with
  | value value => exact ⟨fine, all, fun _ known => known⟩
  | items items =>
    have made := makes.allocate fine all
    exact ⟨made.1, made.2, fun _ known => makes.grows items known⟩

mutual

/-- What comes from the host is made of plain values and new arrays. -/
theorem ofJson (makes : Makes good holds) {heap : Heap} (fine : good heap) : ∀ {json : Json}
    {value : Value} {larger : Heap}, Value.ofJson heap json = some (value, larger) →
      good larger ∧ holds larger value ∧ ∀ other, holds heap other → holds larger other
  | .null, _, _, reached | .boolean _, _, _, reached | .integer _, _, _, reached
  | .float _, _, _, reached | .text _, _, _, reached => by
    rw [Value.ofJson] at reached
    cases reached
    have keeps := makes.keeps fine
    refine ⟨fine, ?_, fun _ known => known⟩
    first
      | exact keeps.none
      | exact keeps.boolean _
      | exact keeps.number _
      | exact keeps.text _
  | .array items, _, _, reached => by
    rw [Value.ofJson] at reached
    cases made : Value.ofJsonItems heap items with
    | none =>
      rw [made] at reached
      cases reached
    | some found =>
      obtain ⟨values, last⟩ := found
      rw [made] at reached
      obtain ⟨inner, all, still⟩ := makes.ofJsonItems fine made
      have whole := makes.allocate inner all
      cases reached
      exact ⟨whole.1, whole.2, fun other known => makes.grows values (still other known)⟩
  | .object _, _, _, reached => by
    rw [Value.ofJson] at reached
    cases reached

theorem ofJsonItems (makes : Makes good holds) {heap : Heap} (fine : good heap) : ∀ {items : List Json}
    {values : List Value} {larger : Heap}, Value.ofJsonItems heap items = some (values, larger) →
      good larger ∧ (∀ value ∈ values, holds larger value) ∧
        ∀ other, holds heap other → holds larger other
  | [], _, _, reached => by
    rw [Value.ofJsonItems] at reached
    cases reached
    exact ⟨fine, by simp, fun _ known => known⟩
  | item :: items, _, _, reached => by
    rw [Value.ofJsonItems] at reached
    cases first : Value.ofJson heap item with
    | none =>
      rw [first] at reached
      cases reached
    | some found =>
      obtain ⟨value, between⟩ := found
      rw [first] at reached
      obtain ⟨middle, head, still⟩ := makes.ofJson fine first
      cases others : Value.ofJsonItems between items with
      | none =>
        simp only [others] at reached
        cases reached
      | some found =>
        obtain ⟨values, last⟩ := found
        simp only [others] at reached
        obtain ⟨ends, tail, later⟩ := makes.ofJsonItems middle others
        cases reached
        refine ⟨ends, fun result inside => ?_, fun other known => later other (still other known)⟩
        rcases List.mem_cons.1 inside with rfl | inside
        · exact later result head
        · exact tail result inside

end

end Heap.Makes

def Replay.All (holds : Value → Prop) (replay : Replay) : Prop :=
  ∀ (slot : Nat) (done : Evaluated), replay.slots[slot]? = some (some done) → holds done.value

namespace Replay

variable {holds : Value → Prop} {replay : Replay}

theorem all_fresh : fresh.All holds := by
  intro slot done present
  simp [fresh] at present

theorem All.take (all : replay.All holds) :
    replay.take.2.All holds ∧
      ∀ value, replay.take.1 = .replayed value → holds value := by
  unfold Replay.take
  split
  · rename_i done present
    refine ⟨all, fun value same => ?_⟩
    cases same
    exact all _ done present
  · exact ⟨all, fun _ impossible => by cases impossible⟩
  · refine ⟨fun slot done present => ?_, fun _ impossible => by cases impossible⟩
    simp only [Array.getElem?_push] at present
    split at present
    · cases present
    · exact all slot done present

theorem All.put (all : replay.All holds) {value : Value}
    (known : holds value) (slot stop : Nat) :
    ∀ (other : Nat) (done : Evaluated),
      (replay.slots.setIfInBounds slot (some ⟨value, stop⟩))[other]? = some (some done) →
        holds done.value := by
  intro other done present
  rw [Array.getElem?_setIfInBounds] at present
  split at present
  · split at present
    · cases present
      exact known
    · cases present
  · exact all other done present

theorem All.suspend (all : replay.All holds) (slot : Nat) :
    (replay.suspend slot).All holds := by
  unfold Replay.suspend
  split <;> exact all

theorem All.deliver (all : replay.All holds) {value : Value}
    (known : holds value) : (replay.deliver value).All holds := by
  unfold Replay.deliver
  split
  · split
    · exact all.put known _ _
    · exact all
  · exact all

theorem All.values (all : replay.All holds) :
    ∀ value ∈ replay.values, holds value := by
  intro value inside
  obtain ⟨slot, there, filled⟩ := List.mem_filterMap.1 inside
  obtain ⟨done, rfl, rfl⟩ := Option.map_eq_some_iff.1 filled
  obtain ⟨place, present⟩ := List.getElem?_of_mem there
  exact all place done (by simpa using present)

end Replay

end TabScript
