import TabScript.Proofs.Numbers.Exact
import TabScript.Proofs.Values.Edits

/-! Elements and slices of texts and arrays.

A text has its characters for elements, each a text of its own, and an array its items. An index is a number that
is whole; one that is negative counts from the end. Which elements are found depends on nothing but the list of
them, and what is wrong with an index is found before anything else is looked at. -/

set_option autoImplicit false

namespace TabScript

def Value.ofCharacters (characters : List Char) : List Value :=
  characters.map fun character => .text (String.ofList [character])

inductive Value.Elements (heap : Heap) : Value → List Value → Prop where
  | text (characters : String) : Elements heap (.text characters) (ofCharacters characters.toList)
  | array {ref : ArrayRef} (present : heap.Has ref) : Elements heap (.array ref) (heap.items ref)

inductive Value.Copies (elements : List Value) : Value → Computed → Prop where
  | text (whole part : String) (same : ofCharacters part.toList = elements) :
    Copies elements (.text whole) (.value (.text part))
  | array (ref : ArrayRef) : Copies elements (.array ref) (.items elements)

def Computed.elements : Computed → List Value
  | .items made => made
  | .value (.text characters) => Value.ofCharacters characters.toList
  | .value _ => []

namespace Value

def IsWhole (index : Value) (whole : Int) : Prop :=
  ∃ number, index = .number number ∧ Number.value? number = some (whole : ℚ)

/-- Of so many places, and with this one the first that is not allowed, the value stands for the given one. -/
def Reaches (index : Value) (length limit place : Nat) : Prop :=
  ∃ whole : Int, index.IsWhole whole ∧ -(length : Int) ≤ whole ∧ whole < limit ∧
    (place : Int) = if whole < 0 then length + whole else whole

/-- Why the value stands for no place. -/
inductive Refused (index : Value) (length limit : Nat) (culprit : Culprit) : OperationFault → Prop where
  | kind (other : ∀ whole, ¬index.IsWhole whole) :
    Refused index length limit culprit (.mismatch .integerIndex index.kind culprit)
  | outside {whole : Int} (known : index.IsWhole whole)
    (outside : whole < -(length : Int) ∨ (limit : Int) ≤ whole) :
    Refused index length limit culprit (.outOfBounds (saturate whole) length culprit)

/-- Less than the largest 64-bit integer. Nothing that a memory with 64-bit addresses holds is longer. -/
def Countable (length : Nat) : Prop := (length : Int) < 9223372036854775807

instance (length : Nat) : Decidable (Countable length) := inferInstanceAs (Decidable (_ < _))

variable {index start stop : Value} {culprit : Culprit} {length limit place : Nat}

theorem Refused.sorted {fault : OperationFault} (refused : index.Refused length limit culprit fault) :
    fault.culprit = culprit ∧
      ((∀ whole, ¬index.IsWhole whole) ∧ fault.kind = .typeViolation ∨
        (∃ whole, index.IsWhole whole) ∧ fault.kind = .outOfBounds) := by
  cases refused with
  | kind other => exact ⟨rfl, .inl ⟨other, rfl⟩⟩
  | outside known => exact ⟨rfl, .inr ⟨⟨_, known⟩, rfl⟩⟩

/-! Integers. -/

theorem integer_of_isWhole {whole : Int} (known : index.IsWhole whole) :
    integer culprit index = .ok (saturate whole) := by
  obtain ⟨number, rfl, exact⟩ := known
  rw [integer, Number.toInt?_eq_some_iff.2 exact]

theorem integer_of_other (other : ∀ whole, ¬index.IsWhole whole) :
    integer culprit index = .error (.mismatch .integerIndex index.kind culprit) := by
  cases index with
  | number number =>
    cases exact : Number.toInt? number with
    | some whole => exact absurd ⟨number, rfl, Number.toInt?_eq_some_iff.1 exact⟩ (other whole)
    | none => rw [integer, exact]; rfl
  | none | boolean | text | array | function => rfl

/-- Integers of 64 bits are enough: none is cut off, and none runs over when a negative one counts from the
end. -/
theorem integer_exact (countable : Countable length) {raw : Int} (read : integer culprit index = .ok raw) :
    (Int64.ofInt raw).toInt = raw ∧
      (raw < 0 → (Int64.ofInt raw + Int64.ofNat length).toInt = raw + length) := by
  obtain ⟨_, whole, -, -, rfl⟩ := integer_ok_iff.1 read
  have low : -2 ^ 63 ≤ saturate whole := by simp only [saturate]; omega
  have high : saturate whole < 2 ^ 63 := by simp only [saturate]; omega
  have short : (length : Int) < 2 ^ 63 - 1 := countable
  have exact := Int64.toInt_ofInt_of_le low high
  refine ⟨exact, fun negative => ?_⟩
  have counted : (Int64.ofNat length).toInt = length := Int64.toInt_ofNat_of_lt (by omega)
  rw [Int64.toInt_add, exact, counted]
  exact Int.bmod_eq_of_le (by omega) (by omega)

/-! Places. -/

def placeBelow (culprit : Culprit) (index : Value) (length limit : Nat) : Except OperationFault Nat := do
  let position ← integer culprit index
  let resolved := resolve position length
  if resolved < 0 ∨ (limit : Int) ≤ resolved then
    throw (.outOfBounds position length culprit)
  return resolved.toNat

theorem elementPosition_eq (index : Value) (length : Nat) :
    elementPosition index length = placeBelow .operand index length length := rfl

theorem boundPosition_eq (culprit : Culprit) (bound : Value) (length : Nat) :
    boundPosition culprit bound length = placeBelow culprit bound length (length + 1) := by
  have same (resolved : Int) : (length : Int) < resolved ↔ ((length + 1 : Nat) : Int) ≤ resolved := by omega
  simp only [boundPosition, placeBelow, same]

section
variable (countable : Countable length) (limited : length ≤ limit ∧ limit ≤ length + 1)
include countable limited

/-- To cut a number down to 64 bits does not bring it inside, nor move what is inside. -/
theorem placeBelow_of_isWhole {whole : Int} (known : index.IsWhole whole) :
    placeBelow culprit index length limit =
      if -(length : Int) ≤ whole ∧ whole < limit then
        .ok (if whole < 0 then length + whole else whole).toNat
      else .error (.outOfBounds (saturate whole) length culprit) := by
  have short : (length : Int) < 9223372036854775807 := countable
  rw [placeBelow, integer_of_isWhole known]
  change (if resolve (saturate whole) length < 0 ∨ (limit : Int) ≤ resolve (saturate whole) length then _
    else Except.ok (resolve (saturate whole) length).toNat) = _
  by_cases inside : -(length : Int) ≤ whole ∧ whole < limit
  · have kept : saturate whole = whole := by simp only [saturate]; omega
    have resolved : resolve whole length = if whole < 0 then length + whole else whole := by
      simp only [resolve, Int.add_comm]
    rw [if_pos inside, kept, resolved, if_neg (by split <;> omega)]
  · rw [if_neg inside, if_pos (by simp only [resolve, saturate]; omega)]
    rfl

theorem placeBelow_ok_iff :
    placeBelow culprit index length limit = .ok place ↔ index.Reaches length limit place := by
  constructor
  · intro found
    by_cases some_ : ∃ whole, index.IsWhole whole
    · obtain ⟨whole, known⟩ := some_
      rw [placeBelow_of_isWhole countable limited known] at found
      split at found
      · rename_i inside
        cases found
        refine ⟨whole, known, inside.1, inside.2, Int.toNat_of_nonneg ?_⟩
        split <;> omega
      · cases found
    · rw [placeBelow, integer_of_other fun whole known => some_ ⟨whole, known⟩] at found
      cases found
  · rintro ⟨whole, known, low, high, same⟩
    rw [placeBelow_of_isWhole countable limited known, if_pos ⟨low, high⟩, ← same, Int.toNat_natCast]

theorem placeBelow_error_iff {fault : OperationFault} :
    placeBelow culprit index length limit = .error fault ↔ index.Refused length limit culprit fault := by
  constructor
  · intro failed
    by_cases some_ : ∃ whole, index.IsWhole whole
    · obtain ⟨whole, known⟩ := some_
      rw [placeBelow_of_isWhole countable limited known] at failed
      split at failed
      · cases failed
      · rename_i outside
        cases failed
        exact .outside known (by omega)
    · have other : ∀ whole, ¬index.IsWhole whole := fun whole known => some_ ⟨whole, known⟩
      rw [placeBelow, integer_of_other other] at failed
      cases failed
      exact .kind other
  · rintro (⟨other⟩ | ⟨known, outside⟩)
    · rw [placeBelow, integer_of_other other]
      rfl
    · rw [placeBelow_of_isWhole countable limited known, if_neg (by omega)]

end

/-- A bound that is refused ends the matter, so the second one is looked at only if the first is right. -/
theorem sliceRange_eq (start stop : Value) (length : Nat) :
    sliceRange start stop length = (do
      let first ← placeBelow .sliceStart start length (length + 1)
      let last ← placeBelow .sliceStop stop length (length + 1)
      return (first, max first last)) := by
  simp only [sliceRange, boundPosition_eq]

theorem sliceRange_ok {first last : Nat} (countable : Countable length)
    (begins : start.Reaches length (length + 1) first) (ends : stop.Reaches length (length + 1) last) :
    sliceRange start stop length = .ok (first, max first last) := by
  rw [sliceRange_eq, (placeBelow_ok_iff countable ⟨Nat.le_succ _, Nat.le_refl _⟩).2 begins,
    (placeBelow_ok_iff countable ⟨Nat.le_succ _, Nat.le_refl _⟩).2 ends]
  rfl

theorem reaches_of_sliceRange (countable : Countable length) {range : Nat × Nat}
    (found : sliceRange start stop length = .ok range) :
    ∃ first last, start.Reaches length (length + 1) first ∧ stop.Reaches length (length + 1) last ∧
      range = (first, max first last) := by
  rw [sliceRange_eq] at found
  obtain ⟨first, begins, found⟩ := except_bind_ok found
  obtain ⟨last, ends, found⟩ := except_bind_ok found
  cases found
  exact ⟨first, last, (placeBelow_ok_iff countable ⟨Nat.le_succ _, Nat.le_refl _⟩).1 begins,
    (placeBelow_ok_iff countable ⟨Nat.le_succ _, Nat.le_refl _⟩).1 ends, rfl⟩

theorem sliceRange_error_iff (countable : Countable length) {fault : OperationFault} :
    sliceRange start stop length = .error fault ↔
      start.Refused length (length + 1) .sliceStart fault ∨
        (∃ first, start.Reaches length (length + 1) first) ∧
          stop.Refused length (length + 1) .sliceStop fault := by
  have begins (first : Nat) : placeBelow .sliceStart start length (length + 1) = .ok first ↔
      start.Reaches length (length + 1) first := placeBelow_ok_iff countable ⟨Nat.le_succ _, Nat.le_refl _⟩
  rw [sliceRange_eq, ← placeBelow_error_iff countable ⟨Nat.le_succ _, Nat.le_refl _⟩,
    ← placeBelow_error_iff countable ⟨Nat.le_succ _, Nat.le_refl _⟩]
  simp only [← begins]
  cases placeBelow .sliceStart start length (length + 1) with
  | error other => simp [bind, Except.bind]
  | ok first => cases placeBelow .sliceStop stop length (length + 1) <;> simp [bind, Except.bind, pure, Except.pure]

/-! Elements. -/

variable {heap : Heap} {target : Value} {elements : List Value}

theorem length_ofCharacters (characters : List Char) :
    (ofCharacters characters).length = characters.length := List.length_map _

theorem ofCharacters_inj {first second : List Char} (same : ofCharacters first = ofCharacters second) :
    first = second := by
  refine List.map_injective_iff.2 (fun one other alike => ?_) same
  simpa using alike

theorem Elements.element_eq (held : Elements heap target elements) (index : Value) :
    element heap target index = (do
      let place ← elementPosition index elements.length
      return elements.getD place none) := by
  cases held with
  | array present => rfl
  | text characters =>
    have count : characters.length = (ofCharacters characters.toList).length := by
      rw [length_ofCharacters, String.length_toList]
    rw [element, count]
    cases found : elementPosition index (ofCharacters characters.toList).length with
    | error fault => rfl
    | ok place =>
      have inside := (elementPosition_ok_iff.1 found).2
      rw [length_ofCharacters] at inside
      have here : characters.toList[place]? = some characters.toList[place] := List.getElem?_eq_getElem inside
      change Except.ok _ = Except.ok _
      rw [List.getD_eq_getElem?_getD, ofCharacters, List.getElem?_map, here, List.drop_eq_getElem_cons inside]
      rfl

theorem Elements.element_ok_iff (held : Elements heap target elements) {value : Value} :
    element heap target index = .ok value ↔
      ∃ place, elementPosition index elements.length = .ok place ∧ elements[place]? = some value := by
  rw [held.element_eq]
  constructor
  · intro found
    obtain ⟨place, points, found⟩ := except_bind_ok found
    cases found
    have inside := (elementPosition_ok_iff.1 points).2
    exact ⟨place, points, by simp [List.getD_eq_getElem?_getD, inside]⟩
  · rintro ⟨place, points, here⟩
    rw [points]
    change Except.ok _ = Except.ok _
    rw [List.getD_eq_getElem?_getD, here]
    rfl

theorem Elements.element_error_iff (held : Elements heap target elements) {fault : OperationFault} :
    element heap target index = .error fault ↔ elementPosition index elements.length = .error fault := by
  rw [held.element_eq]
  cases elementPosition index elements.length with
  | error other => simp [bind, Except.bind]
  | ok place => simp [bind, Except.bind, pure, Except.pure]

/-! Slices. -/

theorem cut_ofCharacters (characters : List Char) (first last : Nat) :
    cut (ofCharacters characters) first last = ofCharacters (cut characters first last) := by
  simp [cut, ofCharacters]

theorem cut_eq (elements : List Value) (first last : Nat) :
    cut elements first last = (elements.drop first).take (last - first) := by
  rw [cut, List.drop_take]

theorem Elements.slice_ok_iff (held : Elements heap target elements) {computed : Computed} :
    slice heap target start stop = .ok computed ↔
      ∃ range, sliceRange start stop elements.length = .ok range ∧
        Copies (cut elements range.1 range.2) target computed := by
  cases held with
  | array present =>
    constructor
    · intro found
      obtain ⟨range, points, found⟩ := except_bind_ok found
      cases found
      exact ⟨range, points, .array _⟩
    · rintro ⟨range, points, ⟨⟩⟩
      rw [slice, points]
      rfl
  | text characters =>
    rw [length_ofCharacters, String.length_toList]
    constructor
    · intro found
      obtain ⟨range, points, found⟩ := except_bind_ok found
      cases found
      refine ⟨range, points, .text _ _ ?_⟩
      rw [String.toList_ofList, cut_ofCharacters]
    · rintro ⟨range, points, ⟨_, part, same⟩⟩
      rw [cut_ofCharacters] at same
      rw [slice, points]
      change Except.ok (Computed.value (Value.text (String.ofList (cut characters.toList range.1 range.2)))) = _
      rw [← ofCharacters_inj same, String.ofList_toList]

theorem Elements.slice_error_iff (held : Elements heap target elements) {fault : OperationFault} :
    slice heap target start stop = .error fault ↔ sliceRange start stop elements.length = .error fault := by
  cases held with
  | array present =>
    rw [slice]
    cases sliceRange start stop (heap.items _).length <;> simp [bind, Except.bind, pure, Except.pure]
  | text characters =>
    rw [length_ofCharacters, String.length_toList, slice]
    cases sliceRange start stop characters.length <;> simp [bind, Except.bind, pure, Except.pure]

/-- What a text gives is what an array with the characters for items gives. -/
theorem Elements.slice_eq (held : Elements heap target elements) (start stop : Value) :
    (slice heap target start stop).map Computed.elements =
      (sliceRange start stop elements.length).map fun range => cut elements range.1 range.2 := by
  cases outcome : sliceRange start stop elements.length with
  | error fault => rw [held.slice_error_iff.2 outcome]; rfl
  | ok range =>
    cases sliced : slice heap target start stop with
    | error fault => cases outcome.symm.trans (held.slice_error_iff.1 sliced)
    | ok computed =>
      obtain ⟨_, points, copies⟩ := held.slice_ok_iff.1 sliced
      cases outcome.symm.trans points
      cases copies with
      | text _ part same => exact congrArg Except.ok same
      | array => rfl

theorem Elements.realize (held : Elements heap target elements) (computed : Computed) :
    Elements (heap.realize computed).2 target elements := by
  cases held with
  | text characters => exact .text characters
  | @array ref present =>
    cases computed with
    | value value => exact .array present
    | items items =>
      have same : (heap.allocate items).2.items ref = heap.items ref :=
        Heap.items_allocate_of_has heap items present
      rw [← same]
      refine .array ?_
      change ref.index < (heap.arrays.push items).size
      rw [Array.size_push]
      exact Nat.lt_succ_of_lt present

theorem Copies.append {first second : List Value} {one two : Computed} (held : Elements heap target elements)
    (begins : Copies first target one) (ends : Copies second target two) :
    ∃ both, Copies (first ++ second) target both ∧
      binary ((heap.realize one).2.realize two).2 .add (heap.realize one).1
        ((heap.realize one).2.realize two).1 = .ok both := by
  cases begins with
  | text whole part same =>
    cases ends with
    | text _ further same' =>
      refine ⟨.value (.text (part ++ further)), .text _ _ ?_, rfl⟩
      rw [String.toList_append, ofCharacters, List.map_append]
      exact congrArg₂ (· ++ ·) same same'
  | array ref =>
    cases ends with
    | array =>
      refine ⟨.items (first ++ second), .array ref, ?_⟩
      let larger := (heap.allocate first).2
      have present : larger.Has (heap.allocate first).1 := by
        change heap.arrays.size < (heap.arrays.push first).size
        rw [Array.size_push]
        exact Nat.lt_succ_self _
      have left : (larger.allocate second).2.items (heap.allocate first).1 = first :=
        (Heap.items_allocate_of_has larger second present).trans (Heap.items_allocate_same heap first)
      have right : (larger.allocate second).2.items (larger.allocate second).1 = second :=
        Heap.items_allocate_same larger second
      change Except.ok (Computed.items ((larger.allocate second).2.items (heap.allocate first).1 ++
        (larger.allocate second).2.items (larger.allocate second).1)) = _
      rw [left, right]

theorem cut_append_cut {first middle last : Nat} (low : first ≤ middle) (high : middle ≤ last)
    (inside : last ≤ elements.length) :
    cut elements first middle ++ cut elements middle last = cut elements first last := by
  have split : elements.take last = elements.take middle ++ (elements.take last).drop middle := by
    have halves := List.take_append_drop middle (elements.take last)
    rw [List.take_take, Nat.min_eq_left high] at halves
    exact halves.symm
  have count : first ≤ (elements.take middle).length := by
    rw [List.length_take]
    omega
  simp only [cut]
  rw [split, List.drop_append_of_le_length count, ← split]

/-! What is found and what is refused. -/

section
variable (held : Elements heap target elements) (countable : Countable elements.length)
include held countable

theorem Elements.element_found {value : Value} : element heap target index = .ok value ↔
    ∃ place, index.Reaches elements.length elements.length place ∧ elements[place]? = some value := by
  rw [held.element_ok_iff]
  refine exists_congr fun place => and_congr_left fun _ => ?_
  rw [elementPosition_eq]
  exact placeBelow_ok_iff countable ⟨Nat.le_refl _, Nat.le_succ _⟩

theorem Elements.element_refused {fault : OperationFault} : element heap target index = .error fault ↔
    index.Refused elements.length elements.length .operand fault :=
  held.element_error_iff.trans (placeBelow_error_iff countable ⟨Nat.le_refl _, Nat.le_succ _⟩)

theorem Elements.slice_found {computed : Computed} : slice heap target start stop = .ok computed ↔
    ∃ first last, start.Reaches elements.length (elements.length + 1) first ∧
      stop.Reaches elements.length (elements.length + 1) last ∧
      Copies ((elements.drop first).take (max first last - first)) target computed := by
  simp only [held.slice_ok_iff, ← cut_eq]
  constructor
  · rintro ⟨range, points, copies⟩
    obtain ⟨first, last, begins, ends, rfl⟩ := reaches_of_sliceRange countable points
    exact ⟨first, last, begins, ends, copies⟩
  · rintro ⟨first, last, begins, ends, copies⟩
    exact ⟨_, sliceRange_ok countable begins ends, copies⟩

theorem Elements.slice_refused {fault : OperationFault} : slice heap target start stop = .error fault ↔
    start.Refused elements.length (elements.length + 1) .sliceStart fault ∨
      (∃ first, start.Reaches elements.length (elements.length + 1) first) ∧
        stop.Refused elements.length (elements.length + 1) .sliceStop fault :=
  held.slice_error_iff.trans (sliceRange_error_iff countable)

theorem Reaches.slice {first last : Nat} (begins : start.Reaches elements.length (elements.length + 1) first)
    (ends : stop.Reaches elements.length (elements.length + 1) last) (forward : first ≤ last) :
    ∃ computed, slice heap target start stop = .ok computed ∧
      Copies (cut elements first last) target computed := by
  have range := sliceRange_ok countable begins ends
  rw [Nat.max_eq_right forward] at range
  cases sliced : Value.slice heap target start stop with
  | error fault => cases range.symm.trans (held.slice_error_iff.1 sliced)
  | ok computed =>
    obtain ⟨_, points, copies⟩ := held.slice_ok_iff.1 sliced
    cases range.symm.trans points
    exact ⟨computed, rfl, copies⟩

theorem Elements.slice_append {middle : Value} {first second third : Nat}
    (begins : start.Reaches elements.length (elements.length + 1) first)
    (meets : middle.Reaches elements.length (elements.length + 1) second)
    (ends : stop.Reaches elements.length (elements.length + 1) third) (low : first ≤ second)
    (high : second ≤ third) :
    ∃ one two both, slice heap target start middle = .ok one ∧
      slice (heap.realize one).2 target middle stop = .ok two ∧
      binary ((heap.realize one).2.realize two).2 .add (heap.realize one).1
        ((heap.realize one).2.realize two).1 = .ok both ∧ slice heap target start stop = .ok both := by
  obtain ⟨one, sliced, copies⟩ := begins.slice held countable meets low
  obtain ⟨two, sliced', copies'⟩ := meets.slice (held.realize one) countable ends high
  obtain ⟨both, together, added⟩ := copies.append held copies'
  refine ⟨one, two, both, sliced, sliced', added, held.slice_found countable |>.2 ?_⟩
  have inside : third ≤ elements.length := by
    obtain ⟨whole, -, -, within, same⟩ := ends
    split at same <;> omega
  rw [cut_append_cut low high inside, cut_eq] at together
  refine ⟨first, third, begins, ends, ?_⟩
  rw [Nat.max_eq_right (Nat.le_trans low high)]
  exact together

end

theorem Elements.agree {ref : ArrayRef} (held : Elements heap target elements) (same : heap.items ref = elements) :
    (∀ index, element heap target index = element heap (.array ref) index) ∧
      ∀ start stop, (slice heap target start stop).map Computed.elements =
        (slice heap (.array ref) start stop).map Computed.elements := by
  subst same
  refine ⟨held.element_eq, fun start stop => ?_⟩
  rw [held.slice_eq, slice]
  cases sliceRange start stop (heap.items ref).length <;> rfl

/-- A number is an index of a text or an array just if it is whole and not further from zero than there are
elements, and the element is the one that it counts, from the end if it is negative. The bounds of a slice may
also stand behind the last element, and the slice has the elements from the first bound up to the second, or none
if that one is earlier. Everything else is refused, the first bound before the second: what is not whole for its
kind, and what is whole for where it points. Integers of 64 bits are enough for this. A text gives what an array
of its characters gives, and two slices that meet are together the slice over both. -/
theorem subscripts_agree (held : Elements heap target elements) (countable : Countable elements.length) :
    let length := elements.length
    (∀ index value, element heap target index = .ok value ↔
      ∃ place, index.Reaches length length place ∧ elements[place]? = some value) ∧
    (∀ index fault, element heap target index = .error fault ↔
      index.Refused length length .operand fault) ∧
    (∀ start stop computed, slice heap target start stop = .ok computed ↔
      ∃ first last, start.Reaches length (length + 1) first ∧ stop.Reaches length (length + 1) last ∧
        Copies ((elements.drop first).take (max first last - first)) target computed) ∧
    (∀ start stop fault, slice heap target start stop = .error fault ↔
      start.Refused length (length + 1) .sliceStart fault ∨
        (∃ first, start.Reaches length (length + 1) first) ∧
          stop.Refused length (length + 1) .sliceStop fault) ∧
    (∀ (index : Value) limit culprit fault, index.Refused length limit culprit fault → fault.culprit = culprit ∧
      ((∀ whole, ¬index.IsWhole whole) ∧ fault.kind = .typeViolation ∨
        (∃ whole, index.IsWhole whole) ∧ fault.kind = .outOfBounds)) ∧
    (∀ culprit index raw, integer culprit index = .ok raw → (Int64.ofInt raw).toInt = raw ∧
      (raw < 0 → (Int64.ofInt raw + Int64.ofNat length).toInt = raw + length)) ∧
    (∀ ref, heap.items ref = elements →
      (∀ index, element heap target index = element heap (.array ref) index) ∧
      ∀ start stop, (slice heap target start stop).map Computed.elements =
        (slice heap (.array ref) start stop).map Computed.elements) ∧
    ∀ start middle stop first second third, start.Reaches length (length + 1) first →
      middle.Reaches length (length + 1) second → stop.Reaches length (length + 1) third →
      first ≤ second → second ≤ third → ∃ one two both, slice heap target start middle = .ok one ∧
        slice (heap.realize one).2 target middle stop = .ok two ∧
        binary ((heap.realize one).2.realize two).2 .add (heap.realize one).1
          ((heap.realize one).2.realize two).1 = .ok both ∧ slice heap target start stop = .ok both :=
  ⟨fun _ _ => held.element_found countable, fun _ _ => held.element_refused countable,
    fun _ _ _ => held.slice_found countable, fun _ _ _ => held.slice_refused countable,
    fun _ _ _ _ => Refused.sorted, fun _ _ _ => integer_exact countable, fun _ => held.agree,
    fun _ _ _ _ _ _ => held.slice_append countable⟩

/-- The last character of three, and a slice of which both bounds are wrong. -/
theorem subscripts_agree_accented :
    Elements Heap.empty (.text "aé😀") (ofCharacters ['a', 'é', '😀']) ∧
      Countable (ofCharacters ['a', 'é', '😀']).length ∧
      element Heap.empty (.text "aé😀") (.number (-1)) = .ok (.text "😀") ∧
      slice Heap.empty (.text "aé😀") (.number 4) (.boolean true) =
        .error (.outOfBounds 4 3 .sliceStart) := by
  have held : Elements Heap.empty (.text "aé😀") (ofCharacters ['a', 'é', '😀']) := .text "aé😀"
  have countable : Countable (ofCharacters ['a', 'é', '😀']).length := by decide
  obtain ⟨found, -, -, refused, -⟩ := subscripts_agree held countable
  have back : IsWhole (.number (-1)) (-1) := ⟨-1, rfl, Number.toInt?_eq_some_iff.1 (by decide +kernel)⟩
  have behind : IsWhole (.number 4) 4 := ⟨4, rfl, Number.toInt?_eq_some_iff.1 (by decide +kernel)⟩
  refine ⟨held, countable, (found _ _).2 ⟨2, ⟨-1, back, by decide, by decide, by decide⟩, rfl⟩, ?_⟩
  exact (refused _ _ _).2 (.inl (.outside behind (.inr (by decide))))

end Value

end TabScript
