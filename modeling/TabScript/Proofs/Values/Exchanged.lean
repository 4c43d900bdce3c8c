import TabScript.Proofs.Numbers.Whole
import TabScript.Proofs.Values.Bisimulation
import TabScript.Proofs.Values.Unfolding

/-! Values that go to the host and come back.

The JSON form of a value is the tree that it unfolds to, and of a tree new arrays are made. So what comes back is
a copy: it has the same items all the way down, in arrays that the program does not have yet. A function is an
object in the JSON form, and of an object no value is made. -/

set_option autoImplicit false

namespace TabScript

variable {σ : Type}

namespace Heap

def Contains (heap : Heap) (value last : Value) : Prop := ∃ path passed, heap.Way value path passed last

variable {heap : Heap} {value last : Value}

theorem Contains.keeps {motive : Value → Prop} (contains : heap.Contains value last) (here : motive value)
    (items : ∀ ref, motive (.array ref) → ∀ item ∈ heap.items ref, motive item) : motive last := by
  obtain ⟨path, passed, way⟩ := contains
  induction way with
  | here => exact here
  | item found _ ih => exact ih (items _ here _ (List.mem_of_getElem? found))

/-- A way goes past no array twice where none is inside itself. -/
theorem Way.nodup {path : List Nat} {passed : List ArrayRef} (way : heap.Way value path passed last)
    (acyclic : ∀ ref, heap.Leads value ref → ¬ heap.Cyclic ref) : passed.Nodup := by
  induction way with
  | here => exact List.nodup_nil
  | item found onward ih =>
    have inside := List.mem_of_getElem? found
    refine List.nodup_cons.2 ⟨fun again => ?_, ih fun ref leads => acyclic ref (leads.of_item inside)⟩
    exact acyclic _ ⟨[], [], .here _⟩ ⟨_, inside, (onward.past again).1⟩

theorem not_cyclic (later : ∀ ref, ∀ item ∈ heap.items ref, ∀ inner, item = .array inner → ref.index < inner.index)
    (ref : ArrayRef) : ¬ heap.Cyclic ref := by
  rintro ⟨item, inside, leads⟩
  have after : ∀ inner, Value.array ref = .array inner → ref.index < inner.index :=
    Contains.keeps leads (motive := fun value => ∀ inner, value = .array inner → ref.index < inner.index)
      (later ref item inside) fun outer after item inside inner same =>
        Nat.lt_trans (after outer rfl) (later outer item inside inner same)
  exact Nat.lt_irrefl _ (after ref rfl)

theorem has_of_leads {later : Heap} (extension : heap.Extends later)
    (present : ∀ ref, heap.Leads value ref → heap.Has ref) {ref : ArrayRef} (leads : later.Leads value ref) :
    heap.Has ref := by
  have known : ∀ other, heap.Leads (.array ref) other → heap.Has other := by
    refine Contains.keeps leads (motive := fun inner => ∀ other, heap.Leads inner other → heap.Has other) present ?_
    intro outer known item inside other onward
    rw [extension.items_eq (known _ ⟨[], [], .here _⟩)] at inside
    exact known other (onward.of_item inside)
  exact known _ ⟨[], [], .here _⟩

end Heap

/-- What of a value a host can give back as it is. -/
def Value.Portable : Value → Prop
  | .number value => (Magnitude.ofFloat value).isFinite = true
  | .function _ => False
  | _ => True

namespace Unfolding

def Portable (tree : Unfolding) : Prop :=
  ∀ path, tree.part? path ≠ some .mark ∧ ∀ value, tree.part? path = some (.plain value) → value.Portable

theorem Portable.item {items : List Unfolding} (portable : (parts items).Portable) {item : Unfolding}
    (inside : item ∈ items) : item.Portable := by
  obtain ⟨index, found⟩ := List.mem_iff_getElem?.1 inside
  intro path
  have below : (parts items).part? (index :: path) = item.part? path := by
    rw [part?, found, Option.bind_some]
  rw [← below]
  exact portable (index :: path)

end Unfolding

namespace Value

mutual

/-- A copy of a value: its arrays are new ones, which were not there at the start. -/
inductive Copied (start heap : Heap) : Value → Value → Prop where
  | plain {first second : Value} (same : equalBy (fun _ _ => false) first second = true) :
    Copied start heap first second
  | array {left right : ArrayRef} (old : start.Has left) (new : ¬ start.Has right) (made : heap.Has right)
    (items : CopiedAll start heap (heap.items left) (heap.items right)) :
    Copied start heap (.array left) (.array right)

inductive CopiedAll (start heap : Heap) : List Value → List Value → Prop where
  | nil : CopiedAll start heap [] []
  | cons {first second : Value} {firsts seconds : List Value} (head : Copied start heap first second)
    (tail : CopiedAll start heap firsts seconds) : CopiedAll start heap (first :: firsts) (second :: seconds)

end

variable {start heap later : Heap}

theorem CopiedAll.forall₂ {firsts seconds : List Value} (copied : CopiedAll start heap firsts seconds) :
    List.Forall₂ (Copied start heap) firsts seconds := by
  induction firsts generalizing seconds with
  | nil =>
    cases copied
    exact .nil
  | cons first firsts ih =>
    cases copied with
    | cons head tail => exact .cons head (ih tail)

mutual

theorem Copied.extends (grown : start.Extends heap) (extension : heap.Extends later) :
    ∀ {first second : Value}, Copied start heap first second → Copied start later first second
  | _, _, .plain same => .plain same
  | _, _, .array old new made items => by
    refine .array old new (extension.has made) ?_
    rw [extension.items_eq (grown.has old), extension.items_eq made]
    exact items.extends grown extension

theorem CopiedAll.extends (grown : start.Extends heap) (extension : heap.Extends later) :
    ∀ {firsts seconds : List Value}, CopiedAll start heap firsts seconds → CopiedAll start later firsts seconds
  | _, _, .nil => .nil
  | _, _, .cons head tail => .cons (head.extends grown extension) (tail.extends grown extension)

end

theorem not_bothArrays {first second : Value} (same : equalBy (fun _ _ => false) first second = true) :
    ¬ BothArrays first second := by
  rintro ⟨left, right, rfl, rfl⟩
  cases same

theorem isBisimulation_copied : IsBisimulation heap (Copied start heap) := by
  intro first second copied
  cases copied with
  | plain same => exact (matches_iff (not_bothArrays same)).2 same
  | array _ _ _ items => exact items.forall₂

theorem Copied.isEqual {first second : Value} (copied : Copied start heap first second) :
    isEqual heap first second = true :=
  (compares_isEqual first second).complete isBisimulation_copied copied

theorem Copied.of_array {first : Value} {right : ArrayRef} (copied : Copied start heap first (.array right)) :
    heap.Has right ∧ ¬ start.Has right ∧
      ∃ left, CopiedAll start heap (heap.items left) (heap.items right) := by
  cases copied with
  | plain same => cases first <;> cases same
  | array _ new made items => exact ⟨made, new, _, items⟩

theorem CopiedAll.of_mem {firsts seconds : List Value} {second : Value}
    (copied : CopiedAll start heap firsts seconds) (inside : second ∈ seconds) :
    ∃ first, Copied start heap first second := by
  induction firsts generalizing seconds with
  | nil =>
    cases copied
    cases inside
  | cons first firsts ih =>
    cases copied with
    | cons head tail =>
      rcases List.mem_cons.1 inside with rfl | further
      · exact ⟨first, head⟩
      · exact ih tail further

theorem Copied.leads {first second : Value} (copied : Copied start heap first second) {ref : ArrayRef}
    (leads : heap.Leads second ref) : heap.Has ref ∧ ¬ start.Has ref := by
  have inner : ∃ first, Copied start heap first (.array ref) := by
    refine Heap.Contains.keeps leads (motive := fun second => ∃ first, Copied start heap first second) ⟨_, copied⟩ ?_
    rintro outer ⟨first, copied⟩ item inside
    obtain ⟨-, -, left, items⟩ := copied.of_array
    exact items.of_mem inside
  obtain ⟨first, copied⟩ := inner
  obtain ⟨made, new, -⟩ := copied.of_array
  exact ⟨made, new⟩

/-! What is made of a tree. -/

theorem extends_ofJson {json : Json} {value : Value} (made : ofJson heap json = some (value, later)) :
    heap.Extends later :=
  ((Heap.extends_makes heap).ofJson heap.extends_refl made).1

theorem extends_ofJsonItems {items : List Json} {values : List Value}
    (made : ofJsonItems heap items = some (values, later)) : heap.Extends later :=
  ((Heap.extends_makes heap).ofJsonItems heap.extends_refl made).1

theorem ofJson_number {number : Float} (portable : (Value.number number).Portable) (heap : Heap) :
    ∃ back, ofJson heap (Number.toJson number) = some (.number back, heap) ∧ (number == back) = true := by
  have finite : (Magnitude.ofFloat number).isFinite = true := portable
  have itself : (number == number) = true := by
    rw [Float.beq_self_iff]
    rintro rfl
    have shape : Magnitude.ofFloat Float.nan = .notANumber := by decide +kernel
    rw [shape] at finite
    cases finite
  unfold Number.toJson
  split
  · rename_i whole read
    split
    · rename_i small
      exact ⟨Number.ofInt whole, by rw [ofJson], Number.beq_ofInt read small⟩
    · exact ⟨number, by rw [ofJson], itself⟩
  · rw [if_pos finite]
    exact ⟨number, by rw [ofJson], itself⟩

theorem ofJson_plain {value : Value} (other : ∀ ref, value ≠ .array ref) (portable : value.Portable) (heap : Heap) :
    ∃ back, ofJson heap (Unfolding.plain value).json = some (back, heap) ∧ Copied start heap value back := by
  cases value with
  | none => exact ⟨.none, by rw [Unfolding.json, itemJson, ofJson], .plain rfl⟩
  | boolean truth => exact ⟨.boolean truth, by rw [Unfolding.json, itemJson, ofJson], .plain (beq_self_eq_true _)⟩
  | text characters => exact ⟨.text characters, by rw [Unfolding.json, itemJson, ofJson], .plain (beq_self_eq_true _)⟩
  | number number =>
    obtain ⟨back, made, same⟩ := ofJson_number portable heap
    exact ⟨.number back, by rw [Unfolding.json, itemJson, made], .plain same⟩
  | array ref => exact absurd rfl (other ref)
  | function made => exact portable.elim

mutual

theorem Unfolds.copied : ∀ {ancestors : List ArrayRef} {value : Value} {tree : Unfolding},
    Unfolds start ancestors value tree → tree.Portable → (∀ ref, start.Leads value ref → start.Has ref) →
      ∀ {heap : Heap}, start.Extends heap →
        ∃ back larger, ofJson heap tree.json = some (back, larger) ∧ Copied start larger value back
  | _, _, _, .plain other, portable, _, heap, _ => by
    obtain ⟨back, made, copied⟩ := ofJson_plain other ((portable []).2 _ rfl) heap
    exact ⟨back, heap, made, copied⟩
  | _, _, _, .mark inside, portable, _, _, _ => absurd rfl (portable []).1
  | _, _, _, .parts new each, portable, present, heap, grown => by
    obtain ⟨values, larger, made, copied⟩ := each.copied (fun item inside => portable.item inside)
      (fun value inside ref leads => present ref (leads.of_item inside)) grown
    have old := present _ ⟨[], [], .here _⟩
    have kept := grown.trans (extends_ofJsonItems made)
    have extension := Heap.extends_allocate larger values
    refine ⟨_, (larger.allocate values).2, by rw [Unfolding.json, ofJson, made], .array old ?new ?made ?items⟩
    case new =>
      have size := kept.size_le
      simp only [Heap.Has, Heap.allocate]
      omega
    case made => simp [Heap.Has, Heap.allocate]
    case items =>
      rw [(kept.trans extension).items_eq old, Heap.items_allocate_same]
      exact copied.extends kept extension

theorem UnfoldAll.copied : ∀ {ancestors : List ArrayRef} {values : List Value} {items : List Unfolding},
    UnfoldAll start ancestors values items → (∀ item ∈ items, item.Portable) →
      (∀ value ∈ values, ∀ ref, start.Leads value ref → start.Has ref) → ∀ {heap : Heap}, start.Extends heap →
        ∃ copies larger, ofJsonItems heap (Unfolding.jsons items) = some (copies, larger) ∧
          CopiedAll start larger values copies
  | _, _, _, .nil, _, _, heap, _ => ⟨[], heap, by rw [Unfolding.jsons, ofJsonItems], .nil⟩
  | _, _, _, .cons first others, portable, present, heap, grown => by
    obtain ⟨back, middle, made, copied⟩ := first.copied (portable _ List.mem_cons_self)
      (present _ List.mem_cons_self) grown
    have extension := extends_ofJson made
    obtain ⟨copies, larger, made', copied'⟩ := others.copied
      (fun item inside => portable item (List.mem_cons_of_mem _ inside))
      (fun value inside => present value (List.mem_cons_of_mem _ inside)) (grown.trans extension)
    refine ⟨back :: copies, larger, ?_, .cons ?_ copied'⟩
    · simp only [Unfolding.jsons, ofJsonItems, made, made']
    · exact copied.extends (grown.trans extension) (extends_ofJsonItems made')

end

theorem ofJsonItems_eq_none {items : List Unfolding} {item : Unfolding} (inside : item ∈ items)
    (refused : ∀ heap, ofJson heap item.json = Option.none) (heap : Heap) :
    ofJsonItems heap (Unfolding.jsons items) = Option.none := by
  induction items generalizing heap with
  | nil => cases inside
  | cons first items ih =>
    rw [Unfolding.jsons, ofJsonItems]
    rcases List.mem_cons.1 inside with rfl | further
    · rw [refused heap]
    · split
      · rfl
      · rw [ih further]

theorem ofJson_eq_none {path : List Nat} {tree : Unfolding} {made : Function}
    (found : tree.part? path = some (.plain (.function made))) (heap : Heap) :
    ofJson heap tree.json = Option.none := by
  induction path generalizing tree heap with
  | nil =>
    rw [Unfolding.part?] at found
    cases found
    cases made <;> rw [Unfolding.json, itemJson, ofJson]
  | cons index path ih =>
    cases tree with
    | plain | mark => cases found
    | parts items =>
      rw [Unfolding.part?] at found
      obtain ⟨item, here, below⟩ := Option.bind_eq_some_iff.1 found
      rw [Unfolding.json, ofJson, ofJsonItems_eq_none (List.mem_of_getElem? here) (ih below)]

def Foreign (start : Heap) (value : Value) : Prop :=
  (∀ made, value ≠ .function made) ∧ ∀ ref, value = .array ref → ¬ start.Has ref

def ForeignItems (start heap : Heap) : Prop :=
  start.Extends heap ∧ ∀ ref, ¬ start.Has ref → ∀ item ∈ heap.items ref, Foreign start item

theorem foreign_makes (start : Heap) : Heap.Makes (ForeignItems start) fun _ => Foreign start where
  keeps fine := {
    none := ⟨nofun, nofun⟩
    boolean _ := ⟨nofun, nofun⟩
    number _ := ⟨nofun, nofun⟩
    text _ := ⟨nofun, nofun⟩
    items foreign := fine.2 _ (foreign.2 _ rfl) }
  allocate {heap items} fine all := by
    obtain ⟨extension, foreign⟩ := fine
    refine ⟨⟨extension.trans (Heap.extends_allocate _ _), fun ref new item inside => ?_⟩, nofun, ?_⟩
    · rcases Heap.mem_items_allocate inside with before | ⟨-, now⟩
      · exact foreign ref new item before
      · exact all item now
    · rintro _ ⟨⟩ present
      exact absurd (extension.has present) (Nat.lt_irrefl _)
  grows _ _ foreign := foreign

theorem ofJson_no_function {json : Json} {back : Value} (made : ofJson heap json = some (back, later))
    (function : Function) : ¬ later.Contains back (.function function) := by
  have nothing : ForeignItems heap heap :=
    ⟨heap.extends_refl, fun ref absent item inside => absurd (Heap.has_of_mem inside) absent⟩
  obtain ⟨⟨-, items⟩, foreign, -⟩ := (foreign_makes heap).ofJson nothing made
  intro contains
  exact (contains.keeps foreign fun ref foreign => items ref (foreign.2 ref rfl)).1 function rfl

end Value

namespace Value

variable {heap : Heap} {value : Value}

theorem portable_of_contains {tree : Unfolding} (unfolds : Unfolds heap [] value tree)
    (acyclic : ∀ ref, heap.Leads value ref → ¬ heap.Cyclic ref)
    (portable : ∀ last, heap.Contains value last → last.Portable) : tree.Portable := by
  intro path
  refine ⟨fun mark => ?_, fun last found => ?_⟩
  · obtain ⟨passed, ref, way, -, inside⟩ := unfolds.part?_mark.1 mark
    exact acyclic ref ⟨path, passed, way⟩ (way.cyclic inside)
  · obtain ⟨passed, other, way, -, plain⟩ := unfolds.part?_iff.1 found
    cases plain
    exact portable _ ⟨path, passed, way⟩

end Value

def HostFunction.identity : HostFunction σ := fun host given => (.ok given.head?, host)

namespace Evaluation

variable {surroundings : Surroundings σ} {builtin : Builtin} {index : Nat}

theorem callBuiltin_identity (native : builtin.native = .host index)
    (identity : surroundings.hosts[index]? = some HostFunction.identity) (span : Span) (nodes : List Node)
    (value : Value) (progress : Progress σ) :
    ∃ after, match Value.ofJson progress.memory.heap (value.toJson progress.memory.heap) with
      | some (back, larger) => after.memory.heap = larger ∧
          callBuiltin surroundings span builtin nodes [value] progress = (.ok back, after)
      | none => callBuiltin surroundings span builtin nodes [value] progress =
          (.error (.fail ⟨.unusableAnswer builtin.name, span⟩), after) := by
  unfold callBuiltin
  rw [native]
  dsimp only
  unfold callHost Evaluation.heap
  rw [identity]
  simp only [bind_assoc, pure_bind, get_bind_apply]
  dsimp only [HostFunction.identity]
  rw [modify_bind_apply]
  simp only [List.map_cons, List.head?_cons]
  cases made : Value.ofJson progress.memory.heap (value.toJson progress.memory.heap) with
  | none =>
    dsimp only
    exact ⟨_, rfl⟩
  | some found =>
    dsimp only
    exact ⟨_, rfl, rfl⟩

/-- A value with no array inside itself goes to the host as JSON. If only what a host can give back is in it, it
can be made of that again: the copy is equal and shares no array with the value, and a function of the host that
answers with what it is given has the copy as its value. If there is a function in it, no value can be made of
it, and the call fails; nor does any other answer of a host have a function in it. -/
theorem exchange_identity (native : builtin.native = .host index)
    (identity : surroundings.hosts[index]? = some HostFunction.identity) (span : Span) (nodes : List Node)
    {progress : Progress σ} {heap : Heap} (now : progress.memory.heap = heap) {value : Value}
    (present : ∀ ref, heap.Leads value ref → heap.Has ref)
    (acyclic : ∀ ref, heap.Leads value ref → ¬ heap.Cyclic ref) :
    ((∀ last, heap.Contains value last → last.Portable) →
      ∃ back larger, Value.ofJson heap (value.toJson heap) = some (back, larger) ∧ heap.Extends larger ∧
        Value.isEqual larger value back = true ∧ (∀ ref, larger.Leads back ref → ¬ larger.Leads value ref) ∧
        ∃ after, callBuiltin surroundings span builtin nodes [value] progress = (.ok back, after) ∧
          after.memory.heap = larger) ∧
    (∀ made, heap.Contains value (.function made) → Value.ofJson heap (value.toJson heap) = none ∧
      ∃ after, callBuiltin surroundings span builtin nodes [value] progress =
        (.error (.fail ⟨.unusableAnswer builtin.name, span⟩), after)) ∧
    ∀ json back larger, Value.ofJson heap json = some (back, larger) →
      ∀ made, ¬ larger.Contains back (.function made) := by
  obtain ⟨after, called⟩ := callBuiltin_identity native identity span nodes value progress
  rw [now] at called
  obtain ⟨tree, unfolds, -, json⟩ := Value.unfolds_shown heap value
  refine ⟨fun portable => ?_, ?_, fun json back larger made => Value.ofJson_no_function made⟩
  · obtain ⟨back, larger, made, copied⟩ :=
      unfolds.copied (Value.portable_of_contains unfolds acyclic portable) present heap.extends_refl
    rw [← json] at made
    have extension := Value.extends_ofJson made
    rw [made] at called
    refine ⟨back, larger, made, extension, copied.isEqual, fun ref leads again => ?_, after, called.2, called.1⟩
    exact (copied.leads leads).2 (Heap.has_of_leads extension present again)
  · rintro made ⟨path, passed, way⟩
    -- the function is a part of the tree, and no value is made of a tree with such a part
    have part : tree.part? path = some (.plain (.function made)) :=
      unfolds.part?_iff.2 ⟨passed, _, way, ⟨way.nodup acyclic, by simp⟩, .plain nofun⟩
    have refused : Value.ofJson heap (value.toJson heap) = none := json ▸ Value.ofJson_eq_none part heap
    rw [refused] at called
    exact ⟨refused, after, called⟩

/-- An array that is in another one twice, and comes back as two arrays; and an array with a function in it. -/
theorem exchange_identity_shared :
    let heap : Heap :=
      ⟨#[[.array ⟨1⟩, .array ⟨1⟩, .number 3], [.number 1.5], [.function (.builtin ⟨"f", .host 0, 0⟩)]], 1⟩
    let surroundings : Surroundings Unit := ⟨Arena.global, fun _ => false, #[HostFunction.identity]⟩
    let progress : Progress Unit := ⟨⟨heap, .initial⟩, .fresh, (), [], []⟩
    (∃ back larger, Value.ofJson heap ((Value.array ⟨0⟩).toJson heap) = some (back, larger) ∧
      Value.isEqual larger (.array ⟨0⟩) back = true ∧
        ∃ after, callBuiltin surroundings default ⟨"f", .host 0, 0⟩ [] [.array ⟨0⟩] progress = (.ok back, after)) ∧
    Value.ofJson heap ((Value.array ⟨2⟩).toJson heap) = none := by
  intro heap surroundings progress
  have three : (Value.number 3).Portable := by
    rw [Value.Portable]
    decide +kernel
  have half : (Value.number 1.5).Portable := by
    rw [Value.Portable]
    decide +kernel
  have items : ∀ ref, ∀ item ∈ heap.items ref,
      (∀ inner, item = .array inner → ref.index < 1 ∧ inner.index = 1) ∧ (ref.index ≠ 2 → item.Portable) := by
    rintro ⟨_ | _ | _ | index⟩ item inside
    · obtain rfl | rfl : item = .array ⟨1⟩ ∨ item = .number 3 := by simpa [heap, Heap.items] using inside
      · exact ⟨by rintro _ ⟨⟩; decide, fun _ => trivial⟩
      · exact ⟨by rintro _ ⟨⟩, fun _ => three⟩
    · obtain rfl : item = .number 1.5 := by simpa [heap, Heap.items] using inside
      exact ⟨by rintro _ ⟨⟩, fun _ => half⟩
    · obtain rfl : item = .function (.builtin ⟨"f", .host 0, 0⟩) := by simpa [heap, Heap.items] using inside
      exact ⟨by rintro _ ⟨⟩, fun other => absurd rfl other⟩
    · simp [heap, Heap.items] at inside
  have acyclic : ∀ ref, ¬ heap.Cyclic ref := Heap.not_cyclic fun ref item inside inner same => by
    have := (items ref item inside).1 inner same
    omega
  have present : ∀ outer, heap.Has outer → ∀ ref, heap.Leads (.array outer) ref → heap.Has ref := by
    intro outer here ref leads
    refine Heap.Contains.keeps leads (motive := fun value => ∀ ref, value = .array ref → heap.Has ref)
      (by rintro _ ⟨⟩; exact here) (fun ref _ item inside inner same => ?_) ref rfl
    rw [Heap.Has, ((items ref item inside).1 inner same).2]
    decide
  have portable : ∀ last, heap.Contains (.array ⟨0⟩) last → last.Portable := by
    intro last contains
    refine (contains.keeps (motive := fun value => value.Portable ∧ ∀ ref, value = .array ref → ref.index < 2)
      ⟨trivial, by rintro _ ⟨⟩; decide⟩ fun ref early item inside => ?_).1
    have small := early.2 ref rfl
    refine ⟨(items ref item inside).2 (by omega), fun inner same => ?_⟩
    have := (items ref item inside).1 inner same
    omega
  have native : (⟨"f", .host 0, 0⟩ : Builtin).native = .host 0 := rfl
  have identity : surroundings.hosts[0]? = some HostFunction.identity := rfl
  have now : progress.memory.heap = heap := rfl
  constructor
  · obtain ⟨copied, -⟩ := exchange_identity native identity default [] now
      (present ⟨0⟩ (by simp [heap, Heap.Has])) fun ref _ => acyclic ref
    obtain ⟨back, larger, made, -, equal, -, after, called, -⟩ := copied portable
    exact ⟨back, larger, made, equal, after, called⟩
  · obtain ⟨-, refused, -⟩ := exchange_identity native identity default [] now
      (present ⟨2⟩ (by simp [heap, Heap.Has])) fun ref _ => acyclic ref
    exact (refused _ ⟨[0], [⟨2⟩], .item rfl (.here _)⟩).1

end Evaluation

end TabScript
