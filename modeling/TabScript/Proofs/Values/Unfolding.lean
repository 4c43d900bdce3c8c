import TabScript.Proofs.Frames.Picture

/-! Values written out.

An array stands for its items, and they for theirs, so that a value is shown as a tree. An array inside itself is
not written out again: there the tree has a mark. Both the text of a value and its JSON form are read off this
one tree. -/

set_option autoImplicit false

namespace TabScript

/-- A value that is written out: a value that is no array, the mark for an array inside itself, or the parts of an
array. -/
inductive Unfolding where
  | plain (value : Value)
  | mark
  | parts (items : List Unfolding)

namespace Unfolding

mutual

def text : Unfolding → String
  | plain value => value.itemText fun _ => ""
  | mark => "[...]"
  | parts items => "[" ++ ", ".intercalate (texts items) ++ "]"

def texts : List Unfolding → List String
  | [] => []
  | item :: items => item.text :: texts items

end

/-- The tree as it is printed by itself: a text has no quotes then. -/
def display : Unfolding → String
  | plain (.text characters) => characters
  | other => other.text

mutual

def json : Unfolding → Json
  | plain value => value.itemJson fun _ => .null
  | mark => .text "[...]"
  | parts items => .array (jsons items)

def jsons : List Unfolding → List Json
  | [] => []
  | item :: items => item.json :: jsons items

end

/-- What stands at a place in the tree. The place is told by the way down from the root, as the indices of the
parts on it. -/
def part? : Unfolding → List Nat → Option Unfolding
  | tree, [] => some tree
  | parts items, index :: path => items[index]?.bind fun item => item.part? path
  | _, _ :: _ => none

end Unfolding

mutual

/-- The tree of a value that stands inside the given arrays. -/
inductive Value.Unfolds (heap : Heap) : List ArrayRef → Value → Unfolding → Prop where
  | plain {ancestors : List ArrayRef} {value : Value} (other : ∀ ref, value ≠ .array ref) :
    Unfolds heap ancestors value (.plain value)
  | mark {ancestors : List ArrayRef} {ref : ArrayRef} (inside : ref ∈ ancestors) :
    Unfolds heap ancestors (.array ref) .mark
  | parts {ancestors : List ArrayRef} {ref : ArrayRef} {items : List Unfolding} (new : ref ∉ ancestors)
    (each : UnfoldAll heap (ref :: ancestors) (heap.items ref) items) :
    Unfolds heap ancestors (.array ref) (.parts items)

inductive Value.UnfoldAll (heap : Heap) : List ArrayRef → List Value → List Unfolding → Prop where
  | nil {ancestors : List ArrayRef} : UnfoldAll heap ancestors [] []
  | cons {ancestors : List ArrayRef} {value : Value} {values : List Value} {item : Unfolding}
    {items : List Unfolding} (first : Unfolds heap ancestors value item)
    (others : UnfoldAll heap ancestors values items) :
    UnfoldAll heap ancestors (value :: values) (item :: items)

end

/-- From a value to another one inside it, past these arrays, the outermost first. The way is told by the indices
of the items on it. -/
inductive Heap.Way (heap : Heap) : Value → List Nat → List ArrayRef → Value → Prop where
  | here (value : Value) : Way heap value [] [] value
  | item {ref : ArrayRef} {index : Nat} {path : List Nat} {passed : List ArrayRef} {item last : Value}
    (found : (heap.items ref)[index]? = some item) (onward : Way heap item path passed last) :
    Way heap (.array ref) (index :: path) (ref :: passed) last

def Heap.Leads (heap : Heap) (value : Value) (ref : ArrayRef) : Prop :=
  ∃ path passed, heap.Way value path passed (.array ref)

/-- The array is somewhere inside itself. -/
def Heap.Cyclic (heap : Heap) (ref : ArrayRef) : Prop := ∃ item ∈ heap.items ref, heap.Leads item ref

variable {heap : Heap} {ancestors : List ArrayRef} {value : Value}

/-! Every value has one tree, and it is what is shown. -/

namespace Value

mutual

theorem Unfolds.unique : ∀ {ancestors : List ArrayRef} {value : Value} {tree other : Unfolding},
    Unfolds heap ancestors value tree → Unfolds heap ancestors value other → tree = other
  | _, _, _, _, .plain plain, again => by
    cases again with
    | plain => rfl
    | mark | parts => exact absurd rfl (plain _)
  | _, _, _, _, .mark inside, again => by
    cases again with
    | plain plain => exact absurd rfl (plain _)
    | mark => rfl
    | parts new => exact absurd inside new
  | _, _, _, _, .parts new each, again => by
    cases again with
    | plain plain => exact absurd rfl (plain _)
    | mark inside => exact absurd inside new
    | parts _ each' => exact congrArg Unfolding.parts (each.unique each')

theorem UnfoldAll.unique : ∀ {ancestors : List ArrayRef} {values : List Value} {items others : List Unfolding},
    UnfoldAll heap ancestors values items → UnfoldAll heap ancestors values others → items = others
  | _, _, _, _, .nil, again => by
    cases again
    rfl
  | _, _, _, _, .cons first rest, again => by
    cases again with
    | cons first' rest' => rw [first.unique first', rest.unique rest']

end

structure Shows (texts : ArrayRef → String) (jsons : ArrayRef → Json) (value : Value) (tree : Unfolding) :
    Prop where
  text : value.itemText texts = tree.text
  json : value.itemJson jsons = tree.json

theorem unfolds_plain (other : ∀ ref, value ≠ .array ref) (texts : ArrayRef → String)
    (jsons : ArrayRef → Json) :
    ∃ tree, Unfolds heap ancestors value tree ∧ Shows texts jsons value tree := by
  refine ⟨.plain value, .plain other, ?_⟩
  rcases value with _ | _ | _ | _ | ref | ⟨_ | _⟩
  case array => exact absurd rfl (other ref)
  all_goals exact ⟨rfl, rfl⟩

theorem unfoldAll {texts : ArrayRef → String} {jsons : ArrayRef → Json} {values : List Value}
    (each : ∀ value ∈ values, ∃ tree, Unfolds heap ancestors value tree ∧ Shows texts jsons value tree) :
    ∃ items, UnfoldAll heap ancestors values items ∧
      values.map (itemText texts) = Unfolding.texts items ∧ values.map (itemJson jsons) = Unfolding.jsons items := by
  induction values with
  | nil => exact ⟨[], .nil, rfl, rfl⟩
  | cons value values ih =>
    obtain ⟨item, unfolds, shown⟩ := each value List.mem_cons_self
    obtain ⟨items, others, texts_eq, jsons_eq⟩ := ih fun other inside => each other (List.mem_cons_of_mem _ inside)
    refine ⟨item :: items, .cons unfolds others, ?_, ?_⟩
    · rw [List.map_cons, shown.text, texts_eq, Unfolding.texts]
    · rw [List.map_cons, shown.json, jsons_eq, Unfolding.jsons]

/-- The bound on the depth is never met: there is room for every array that was not passed yet, and none is passed
twice. -/
theorem unfolds_array {budget : Nat} (distinct : ancestors.Nodup) (passed : ∀ ancestor ∈ ancestors, heap.Has ancestor)
    (enough : heap.arrays.size < budget + ancestors.length) (ref : ArrayRef) :
    ∃ tree, Unfolds heap ancestors (.array ref) tree ∧ arrayText heap budget ancestors ref = tree.text ∧
      arrayJson heap budget ancestors ref = tree.json := by
  induction budget generalizing ancestors ref with
  | zero =>
    have few := Heap.length_le_of_has distinct passed
    omega
  | succ budget ih =>
    rw [arrayText, arrayJson]
    by_cases inside : ref ∈ ancestors
    · rw [if_pos inside, if_pos inside]
      exact ⟨.mark, .mark inside, rfl, rfl⟩
    · rw [if_neg inside, if_neg inside]
      have each : ∀ item ∈ heap.items ref, ∃ tree, Unfolds heap (ref :: ancestors) item tree ∧
          Shows (arrayText heap budget (ref :: ancestors)) (arrayJson heap budget (ref :: ancestors)) item tree := by
        intro item member
        by_cases array : ∃ inner, item = .array inner
        · obtain ⟨inner, rfl⟩ := array
          -- only an array that is there has items
          have passed' : ∀ ancestor ∈ ref :: ancestors, heap.Has ancestor :=
            List.forall_mem_cons.2 ⟨Heap.has_of_mem member, passed⟩
          have room : heap.arrays.size < budget + (ref :: ancestors).length := by
            rw [List.length_cons]
            omega
          obtain ⟨tree, unfolds, text, json⟩ := ih (List.nodup_cons.2 ⟨inside, distinct⟩) passed' room inner
          exact ⟨tree, unfolds, text, json⟩
        · exact unfolds_plain (fun inner same => array ⟨inner, same⟩) _ _
      obtain ⟨items, unfold, texts, jsons⟩ := unfoldAll each
      refine ⟨.parts items, .parts inside unfold, ?_, ?_⟩
      · simp only [texts, Unfolding.text]
      · simp only [jsons, Unfolding.json]

theorem unfolds_shown (heap : Heap) (value : Value) :
    ∃ tree, Unfolds heap [] value tree ∧ value.display heap = tree.display ∧ value.toJson heap = tree.json := by
  by_cases array : ∃ ref, value = .array ref
  · obtain ⟨ref, rfl⟩ := array
    have enough : heap.arrays.size < heap.arrays.size + 1 + ([] : List ArrayRef).length := Nat.lt_succ_self _
    obtain ⟨tree, unfolds, text, json⟩ := unfolds_array List.nodup_nil (by simp) enough ref
    refine ⟨tree, unfolds, ?_, json⟩
    cases unfolds with
    | plain other => exact absurd rfl (other ref)
    | mark | parts => exact text
  · have other : ∀ ref, value ≠ .array ref := fun ref same => array ⟨ref, same⟩
    refine ⟨.plain value, .plain other, ?_, ?_⟩
    · rcases value with _ | _ | _ | _ | ref | ⟨_ | _⟩
      case array => exact absurd rfl (other ref)
      all_goals rfl
    · rcases value with _ | _ | _ | _ | ref | ⟨_ | _⟩
      case array => exact absurd rfl (other ref)
      all_goals rfl

/-! Places in the tree. -/

theorem UnfoldAll.part {values : List Value} {items : List Unfolding} (each : UnfoldAll heap ancestors values items)
    {index : Nat} {item : Unfolding} (found : items[index]? = some item) :
    ∃ value, values[index]? = some value ∧ Unfolds heap ancestors value item := by
  induction values generalizing items index with
  | nil =>
    cases each
    cases found
  | cons value values ih =>
    cases each with
    | cons first others =>
      cases index with
      | zero =>
        cases found
        exact ⟨value, rfl, first⟩
      | succ index => exact ih others found

theorem UnfoldAll.whole {values : List Value} {items : List Unfolding} (each : UnfoldAll heap ancestors values items)
    {index : Nat} {value : Value} (found : values[index]? = some value) :
    ∃ item, items[index]? = some item ∧ Unfolds heap ancestors value item := by
  induction values generalizing items index with
  | nil => cases found
  | cons first values ih =>
    cases each with
    | cons head others =>
      cases index with
      | zero =>
        cases found
        exact ⟨_, rfl, head⟩
      | succ index => exact ih others found

def Fresh (ancestors passed : List ArrayRef) : Prop := passed.Nodup ∧ ∀ ref ∈ passed, ref ∉ ancestors

theorem fresh_cons {ref : ArrayRef} {passed : List ArrayRef} :
    Fresh ancestors (ref :: passed) ↔ ref ∉ ancestors ∧ Fresh (ref :: ancestors) passed := by
  simp only [Fresh, List.nodup_cons, List.mem_cons, forall_eq_or_imp, not_or]
  constructor
  · rintro ⟨⟨apart, distinct⟩, new, others⟩
    exact ⟨new, distinct, fun other inside => ⟨fun same => apart (same ▸ inside), others other inside⟩⟩
  · rintro ⟨new, distinct, others⟩
    exact ⟨⟨fun inside => (others ref inside).1 rfl, distinct⟩, new, fun other inside => (others other inside).2⟩

/-- What stands at a place is the tree of what the way leads to, and the way goes past no array twice. -/
theorem Unfolds.part?_iff {tree part : Unfolding} {path : List Nat} (unfolds : Unfolds heap ancestors value tree) :
    tree.part? path = some part ↔ ∃ passed last, heap.Way value path passed last ∧ Fresh ancestors passed ∧
      Unfolds heap (passed.reverse ++ ancestors) last part := by
  induction path generalizing ancestors value tree with
  | nil =>
    constructor
    · intro found
      rw [Unfolding.part?] at found
      cases found
      exact ⟨[], value, .here value, ⟨List.nodup_nil, by simp⟩, unfolds⟩
    · rintro ⟨passed, last, ⟨⟩, -, same⟩
      rw [Unfolding.part?, unfolds.unique same]
  | cons index path ih =>
    cases unfolds with
    | plain other =>
      refine ⟨nofun, ?_⟩
      rintro ⟨_, last, ⟨⟩, -⟩
      exact absurd rfl (other _)
    | mark inside =>
      refine ⟨nofun, ?_⟩
      rintro ⟨_, last, ⟨⟩, fresh, -⟩
      exact absurd inside (fresh_cons.1 fresh).1
    | @parts _ ref items new each =>
      rw [Unfolding.part?]
      -- one item further down the array has joined the ancestors, and the way must keep clear of it too
      constructor
      · intro found
        obtain ⟨item, here, found⟩ := Option.bind_eq_some_iff.1 found
        obtain ⟨inner, stands, unfolds⟩ := each.part here
        obtain ⟨passed, last, way, fresh, below⟩ := (ih unfolds).1 found
        refine ⟨ref :: passed, last, .item stands way, fresh_cons.2 ⟨new, fresh⟩, ?_⟩
        rwa [List.reverse_cons, List.append_assoc, List.singleton_append]
      · rintro ⟨_, last, ⟨⟩, fresh, below⟩
        rename_i passed inner stands way
        obtain ⟨item, here, unfolds⟩ := each.whole stands
        rw [List.reverse_cons, List.append_assoc, List.singleton_append] at below
        exact Option.bind_eq_some_iff.2
          ⟨item, here, (ih unfolds).2 ⟨passed, last, way, (fresh_cons.1 fresh).2, below⟩⟩

end Value

/-! Ways. -/

namespace Heap

theorem Way.trans {first middle last : Value} {path onwards : List Nat} {passed others : List ArrayRef}
    (way : heap.Way first path passed middle) (onward : heap.Way middle onwards others last) :
    heap.Way first (path ++ onwards) (passed ++ others) last := by
  induction way with
  | here => exact onward
  | item found _ ih => exact .item found (ih onward)

theorem Leads.of_item {ref other : ArrayRef} {item : Value} (inside : item ∈ heap.items ref)
    (leads : heap.Leads item other) : heap.Leads (.array ref) other := by
  obtain ⟨index, found⟩ := List.mem_iff_getElem?.1 inside
  obtain ⟨path, passed, way⟩ := leads
  exact ⟨_, _, .item found way⟩

theorem Way.past {last : Value} {path : List Nat} {passed : List ArrayRef} {ref : ArrayRef}
    (way : heap.Way value path passed last) (inside : ref ∈ passed) :
    heap.Leads value ref ∧ ∃ item ∈ heap.items ref, ∃ path passed, heap.Way item path passed last := by
  induction way with
  | here => cases inside
  | @item outer index path passed item last found onward ih =>
    have member : item ∈ heap.items outer := List.mem_of_getElem? found
    rcases List.mem_cons.1 inside with rfl | inside
    · exact ⟨⟨[], [], .here _⟩, item, member, path, passed, onward⟩
    · obtain ⟨leads, below⟩ := ih inside
      exact ⟨leads.of_item member, below⟩

/-- A way that comes back to an array that it went past shows that the array is inside itself. -/
theorem Way.cyclic {path : List Nat} {passed : List ArrayRef} {ref : ArrayRef}
    (way : heap.Way value path passed (.array ref)) (inside : ref ∈ passed) : heap.Cyclic ref := by
  obtain ⟨-, item, member, below⟩ := way.past inside
  exact ⟨item, member, below⟩

/-- Nothing that is inside an array leads out to what the way to the array went past, unless the array is inside
itself. -/
theorem Way.apart {path : List Nat} {passed : List ArrayRef} {ref other : ArrayRef}
    (way : heap.Way value path passed (.array ref)) (acyclic : ¬ heap.Cyclic ref)
    (leads : heap.Leads (.array ref) other) : other ∉ passed := by
  intro inside
  obtain ⟨-, item, member, back, between, home⟩ := way.past inside
  obtain ⟨onward, past, ahead⟩ := leads
  apply acyclic
  cases ahead with
  | here => exact ⟨item, member, back, between, home⟩
  | @item _ _ _ _ inner _ found ahead =>
    obtain ⟨index, here⟩ := List.mem_iff_getElem?.1 member
    exact ⟨inner, List.mem_of_getElem? found, _, _, ahead.trans (.item here home)⟩

end Heap

namespace Value

mutual

theorem Unfolds.elsewhere : ∀ {ancestors others : List ArrayRef} {value : Value} {tree : Unfolding},
    Unfolds heap ancestors value tree → (∀ ref, heap.Leads value ref → (ref ∈ ancestors ↔ ref ∈ others)) →
      Unfolds heap others value tree
  | _, _, _, _, .plain other, _ => .plain other
  | _, _, _, _, .mark inside, same => .mark ((same _ ⟨_, _, .here _⟩).1 inside)
  | _, _, _, _, .parts new each, same => by
    apply Unfolds.parts
    · exact fun inside => new ((same _ ⟨_, _, .here _⟩).2 inside)
    · apply each.elsewhere
      intro item member ref leads
      rw [List.mem_cons, List.mem_cons, same ref (leads.of_item member)]

theorem UnfoldAll.elsewhere : ∀ {ancestors others : List ArrayRef} {values : List Value} {items : List Unfolding},
    UnfoldAll heap ancestors values items →
      (∀ value ∈ values, ∀ ref, heap.Leads value ref → (ref ∈ ancestors ↔ ref ∈ others)) →
        UnfoldAll heap others values items
  | _, _, _, _, .nil, _ => .nil
  | _, _, _, _, .cons first rest, same =>
    .cons (first.elsewhere (same _ List.mem_cons_self))
      (rest.elsewhere fun value member => same value (List.mem_cons_of_mem _ member))

end

theorem Unfolds.whole {tree whole : Unfolding} {path : List Nat} {passed : List ArrayRef} {ref : ArrayRef}
    (unfolds : Unfolds heap [] value tree) (acyclic : ¬ heap.Cyclic ref)
    (alone : Unfolds heap [] (.array ref) whole) (way : heap.Way value path passed (.array ref))
    (distinct : passed.Nodup) : tree.part? path = some whole := by
  refine unfolds.part?_iff.2 ⟨passed, .array ref, way, ⟨distinct, fun _ _ => List.not_mem_nil⟩, ?_⟩
  apply alone.elsewhere
  intro other leads
  simpa using way.apart acyclic leads

theorem Unfolds.part?_mark {tree : Unfolding} {path : List Nat} (unfolds : Unfolds heap [] value tree) :
    tree.part? path = some .mark ↔
      ∃ passed ref, heap.Way value path passed (.array ref) ∧ passed.Nodup ∧ ref ∈ passed := by
  rw [unfolds.part?_iff]
  constructor
  · rintro ⟨passed, last, way, ⟨distinct, -⟩, mark⟩
    cases mark with
    | mark inside => exact ⟨passed, _, way, distinct, by simpa using inside⟩
  · rintro ⟨passed, ref, way, distinct, inside⟩
    exact ⟨passed, .array ref, way, ⟨distinct, fun _ _ => List.not_mem_nil⟩, .mark (by simpa using inside)⟩

/-- A value is shown as its one tree, both as a text and as JSON. At each place of the tree stands what the value
has there; a mark stands there if it is an array that the way down to it goes past, and nothing stands below a
mark. An array that is not inside itself looks everywhere as it does by itself, and a value with no array inside
itself has no mark. -/
theorem shown_unfolded (heap : Heap) (value : Value) :
    ∃ tree, (∀ other, Unfolds heap [] value other ↔ other = tree) ∧
      value.display heap = tree.display ∧ value.toJson heap = tree.json ∧
      (∀ path part, tree.part? path = some part ↔ ∃ passed last, heap.Way value path passed last ∧
        passed.Nodup ∧ Unfolds heap passed.reverse last part) ∧
      (∀ path, tree.part? path = some .mark ↔
        ∃ passed ref, heap.Way value path passed (.array ref) ∧ passed.Nodup ∧ ref ∈ passed) ∧
      (∀ ref, ¬ heap.Cyclic ref → ∃ items, Unfolds heap [] (.array ref) (.parts items) ∧
        ∀ path passed, heap.Way value path passed (.array ref) → passed.Nodup →
          tree.part? path = some (.parts items)) ∧
      ((∀ ref, heap.Leads value ref → ¬ heap.Cyclic ref) → ∀ path, tree.part? path ≠ some .mark) := by
  obtain ⟨tree, unfolds, text, json⟩ := unfolds_shown heap value
  refine ⟨tree, ?only, text, json, ?places, fun _ => unfolds.part?_mark, ?shared, ?acyclic⟩
  case only =>
    intro other
    constructor
    · exact fun again => again.unique unfolds
    · rintro rfl
      exact unfolds
  case places =>
    intro path part
    rw [unfolds.part?_iff]
    simp [Fresh]
  case shared =>
    intro ref acyclic
    obtain ⟨whole, alone, -⟩ := unfolds_shown heap (.array ref)
    cases alone with
    | plain other => exact absurd rfl (other ref)
    | mark inside => cases inside
    | parts new each =>
      exact ⟨_, .parts new each, fun path passed way distinct =>
        unfolds.whole acyclic (.parts new each) way distinct⟩
  case acyclic =>
    intro acyclic path mark
    obtain ⟨passed, ref, way, -, inside⟩ := unfolds.part?_mark.1 mark
    exact acyclic ref ⟨path, passed, way⟩ (way.cyclic inside)

/-- Two arrays inside each other, the first of them with a third one, twice. -/
example :
    (Value.array ⟨0⟩).display ⟨#[[.array ⟨2⟩, .array ⟨1⟩, .array ⟨2⟩], [.array ⟨0⟩], []], 3⟩ = "[[], [[...]], []]" := by
  decide +kernel

end Value

end TabScript
