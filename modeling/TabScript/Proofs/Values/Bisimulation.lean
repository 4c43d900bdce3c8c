import Mathlib
import TabScript.Value.Operation

/-! Equality of values is bisimilarity.

Two values are bisimilar if some relation holds between them that relates arrays only if they have as many
items and the items are related, pair by pair, and other values only if they are equal. Equality finds
just this, whatever arrays share their items or contain themselves: a pair that it meets inside itself
needs no other reason to be related. -/

set_option autoImplicit false

namespace TabScript

/-- Every number equals itself, but the one that stands for no number. -/
def Value.WithoutNaN : Value → Prop
  | .number value => value ≠ Float.nan
  | _ => True

/-- No array has an item that differs from itself. -/
def Heap.WithoutNaN (heap : Heap) : Prop :=
  ∀ ref, ∀ item ∈ heap.items ref, item.WithoutNaN

namespace Value

def Matches (heap : Heap) (related : Value → Value → Prop) : Value → Value → Prop
  | none, none => True
  | boolean first, boolean second => first = second
  | number first, number second => (first == second) = true
  | text first, text second => first = second
  | array first, array second => List.Forall₂ related (heap.items first) (heap.items second)
  | function first, function second => first.isSame second = true
  | _, _ => False

def IsBisimulation (heap : Heap) (related : Value → Value → Prop) : Prop :=
  ∀ first second, related first second → Matches heap related first second

def Bisimilar (heap : Heap) (first second : Value) : Prop :=
  ∃ related, IsBisimulation heap related ∧ related first second

def BothArrays (first second : Value) : Prop :=
  ∃ left right, first = array left ∧ second = array right

mutual

/-- How a comparison goes while the given pairs are being compared. There is no bound on its depth: it
ends where there is a derivation. -/
inductive Compares (heap : Heap) : List (ArrayRef × ArrayRef) → Value → Value → Bool → Prop where
  | plain {visiting : List (ArrayRef × ArrayRef)} {first second : Value}
    (plain : ¬BothArrays first second) :
    Compares heap visiting first second (equalBy (fun _ _ => false) first second)
  | known {visiting : List (ArrayRef × ArrayRef)} {left right : ArrayRef}
    (known : left = right ∨ (left, right) ∈ visiting) :
    Compares heap visiting (array left) (array right) true
  | lengths {visiting : List (ArrayRef × ArrayRef)} {left right : ArrayRef}
    (new : ¬(left = right ∨ (left, right) ∈ visiting))
    (differ : (heap.items left).length ≠ (heap.items right).length) :
    Compares heap visiting (array left) (array right) false
  | items {visiting : List (ArrayRef × ArrayRef)} {left right : ArrayRef} {truth : Bool}
    (new : ¬(left = right ∨ (left, right) ∈ visiting))
    (same : (heap.items left).length = (heap.items right).length)
    (pairs : ComparesAll heap ((left, right) :: visiting) (heap.items left) (heap.items right) truth) :
    Compares heap visiting (array left) (array right) truth

inductive ComparesAll (heap : Heap) :
    List (ArrayRef × ArrayRef) → List Value → List Value → Bool → Prop where
  | nil {visiting : List (ArrayRef × ArrayRef)} : ComparesAll heap visiting [] [] true
  | differ {visiting : List (ArrayRef × ArrayRef)} {first second : Value} {firsts seconds : List Value}
    (head : Compares heap visiting first second false) :
    ComparesAll heap visiting (first :: firsts) (second :: seconds) false
  | agree {visiting : List (ArrayRef × ArrayRef)} {first second : Value} {firsts seconds : List Value}
    {truth : Bool} (head : Compares heap visiting first second true)
    (tail : ComparesAll heap visiting firsts seconds truth) :
    ComparesAll heap visiting (first :: firsts) (second :: seconds) truth

end

variable {heap : Heap} {visiting : List (ArrayRef × ArrayRef)}

theorem equalBy_of_plain {first second : Value} (plain : ¬BothArrays first second)
    (arrays others : ArrayRef → ArrayRef → Bool) :
    equalBy arrays first second = equalBy others first second := by
  cases first <;> cases second <;> first | rfl | exact absurd ⟨_, _, rfl, rfl⟩ plain

/-! Every comparison ends. -/

structure Visits (heap : Heap) (visiting : List (ArrayRef × ArrayRef)) : Prop where
  nodup : visiting.Nodup
  has : ∀ pair ∈ visiting, heap.Has pair.1 ∧ heap.Has pair.2

theorem Visits.length_le (visits : Visits heap visiting) :
    visiting.length ≤ heap.arrays.size * heap.arrays.size := by
  let places : List (Nat × Nat) := visiting.map fun pair => (pair.1.index, pair.2.index)
  have distinct : places.Nodup := by
    refine visits.nodup.map fun first second same => ?_
    obtain ⟨⟨_⟩, ⟨_⟩⟩ := first
    obtain ⟨⟨_⟩, ⟨_⟩⟩ := second
    cases same
    rfl
  have inside : places.toFinset ⊆ Finset.range heap.arrays.size ×ˢ Finset.range heap.arrays.size := by
    intro place member
    obtain ⟨pair, visited, rfl⟩ := List.mem_map.1 (List.mem_toFinset.1 member)
    exact Finset.mem_product.2
      ⟨Finset.mem_range.2 (visits.has pair visited).1, Finset.mem_range.2 (visits.has pair visited).2⟩
  have count := Finset.card_le_card inside
  rw [List.toFinset_card_of_nodup distinct, Finset.card_product, Finset.card_range,
    List.length_map] at count
  exact count

theorem comparesAll {equal : Value → Value → Bool} {firsts seconds : List Value}
    (same : firsts.length = seconds.length)
    (each : ∀ pair ∈ firsts.zip seconds, Compares heap visiting pair.1 pair.2 (equal pair.1 pair.2)) :
    ComparesAll heap visiting firsts seconds
      ((firsts.zip seconds).all fun pair => equal pair.1 pair.2) := by
  induction firsts generalizing seconds with
  | nil =>
    cases seconds with
    | nil => exact .nil
    | cons => cases same
  | cons first firsts ih =>
    cases seconds with
    | nil => cases same
    | cons second seconds =>
      have head := each (first, second) List.mem_cons_self
      have tail := ih (Nat.succ.inj same) fun pair inside => each pair (List.mem_cons_of_mem _ inside)
      rw [List.zip_cons_cons, List.all_cons]
      dsimp only at head ⊢
      cases truth : equal first second with
      | false =>
        rw [truth] at head
        exact .differ head
      | true =>
        rw [truth] at head
        exact .agree head tail

/-- The bound on the depth is never met: each comparison inside another one has a new pair, and the bound
leaves room for as many as there are. -/
theorem compares_equalArrays {budget : Nat} (visits : Visits heap visiting)
    (enough : heap.arrays.size * heap.arrays.size < budget + visiting.length) (left right : ArrayRef) :
    Compares heap visiting (array left) (array right) (equalArrays heap budget visiting left right) := by
  induction budget generalizing visiting left right with
  | zero =>
    have few := visits.length_le
    omega
  | succ budget ih =>
    rw [equalArrays]
    split
    · rename_i known
      exact .known known
    · rename_i new
      dsimp only
      by_cases same : (heap.items left).length = (heap.items right).length
      · simp only [same, beq_self_eq_true, Bool.true_and]
        refine .items new same (comparesAll same fun pair inside => ?_)
        obtain ⟨here, there⟩ := List.of_mem_zip (show (pair.1, pair.2) ∈ _ from inside)
        -- there are items to compare, so that both arrays are in the heap
        have visits' : Visits heap ((left, right) :: visiting) := by
          refine ⟨List.nodup_cons.2 ⟨fun met => new (.inr met), visits.nodup⟩, fun other member => ?_⟩
          rcases List.mem_cons.1 member with rfl | member
          · exact ⟨Heap.has_of_mem here, Heap.has_of_mem there⟩
          · exact visits.has other member
        by_cases arrays : BothArrays pair.1 pair.2
        · obtain ⟨first, second, left_eq, right_eq⟩ := arrays
          rw [left_eq, right_eq]
          refine ih visits' ?_ first second
          rw [List.length_cons]
          omega
        · rw [equalBy_of_plain arrays _ fun _ _ => false]
          exact .plain arrays
      · rw [beq_false_of_ne same, Bool.false_and]
        exact .lengths new same

theorem compares_isEqual (first second : Value) :
    Compares heap [] first second (isEqual heap first second) := by
  by_cases arrays : BothArrays first second
  · obtain ⟨left, right, rfl, rfl⟩ := arrays
    exact compares_equalArrays ⟨List.nodup_nil, by simp⟩ (by simp) left right
  · rw [isEqual, equalBy_of_plain arrays _ fun _ _ => false]
    exact .plain arrays

mutual

theorem Compares.unique : ∀ {visiting : List (ArrayRef × ArrayRef)} {first second : Value}
    {truth other : Bool}, Compares heap visiting first second truth →
      Compares heap visiting first second other → truth = other
  | _, _, _, _, _, .plain plain, again => by
    cases again with
    | plain => rfl
    | known | lengths | items => exact absurd ⟨_, _, rfl, rfl⟩ plain
  | _, _, _, _, _, .known known, again => by
    cases again with
    | plain plain => exact absurd ⟨_, _, rfl, rfl⟩ plain
    | known => rfl
    | lengths new | items new => exact absurd known new
  | _, _, _, _, _, .lengths new differ, again => by
    cases again with
    | plain plain => exact absurd ⟨_, _, rfl, rfl⟩ plain
    | known known => exact absurd known new
    | lengths => rfl
    | items _ same => exact absurd same differ
  | _, _, _, _, _, .items new same pairs, again => by
    cases again with
    | plain plain => exact absurd ⟨_, _, rfl, rfl⟩ plain
    | known known => exact absurd known new
    | lengths _ differ => exact absurd same differ
    | items _ _ pairs' => exact pairs.unique pairs'

theorem ComparesAll.unique : ∀ {visiting : List (ArrayRef × ArrayRef)} {firsts seconds : List Value}
    {truth other : Bool}, ComparesAll heap visiting firsts seconds truth →
      ComparesAll heap visiting firsts seconds other → truth = other
  | _, _, _, _, _, .nil, again => by
    cases again
    rfl
  | _, _, _, _, _, .differ head, again => by
    cases again with
    | differ => rfl
    | agree head' => cases head.unique head'
  | _, _, _, _, _, .agree head tail, again => by
    cases again with
    | differ head' => cases head.unique head'
    | agree _ tail' => exact tail.unique tail'

end

/-! What compares equal is bisimilar. -/

theorem Matches.mono {related wider : Value → Value → Prop} {first second : Value}
    (fits : Matches heap related first second)
    (within : ∀ first second, related first second → wider first second) :
    Matches heap wider first second := by
  cases first <;> cases second <;> first | exact fits | exact fits.imp fun first second => within first second

theorem Matches.refl {related : Value → Value → Prop} {value : Value} (clean : value.WithoutNaN)
    (items : ∀ ref, value = array ref → ∀ item ∈ heap.items ref, related item item) :
    Matches heap related value value := by
  cases value with
  | none => trivial
  | boolean truth => rfl
  | number number => exact Float.beq_self_iff.2 clean
  | text characters => rfl
  | array ref => exact List.forall₂_same.2 (items ref rfl)
  | function made => cases made <;> exact beq_self_eq_true _

theorem matches_iff {related : Value → Value → Prop} {first second : Value}
    (plain : ¬BothArrays first second) :
    Matches heap related first second ↔ equalBy (fun _ _ => false) first second = true := by
  cases first <;> cases second
  case array.array => exact absurd ⟨_, _, rfl, rfl⟩ plain
  all_goals simp [equalBy, Matches]

def Assumed (visiting : List (ArrayRef × ArrayRef)) (first second : Value) : Prop :=
  ∃ pair ∈ visiting, first = array pair.1 ∧ second = array pair.2

def Supported (heap : Heap) (visiting : List (ArrayRef × ArrayRef)) (first second : Value) : Prop :=
  ∃ related : Value → Value → Prop,
    (∀ first second, related first second →
      Matches heap (fun first second => related first second ∨ Assumed visiting first second)
        first second) ∧
    (related first second ∨ Assumed visiting first second)

theorem supported_refl (clean : heap.WithoutNaN) {value : Value} (proper : value.WithoutNaN) :
    Supported heap visiting value value := by
  refine ⟨fun first second => first = second ∧ first.WithoutNaN, ?_, .inl ⟨rfl, proper⟩⟩
  rintro first second ⟨rfl, proper⟩
  exact .refl proper fun ref _ item inside => .inl ⟨rfl, clean ref item inside⟩

def Backed (heap : Heap) (visiting : List (ArrayRef × ArrayRef)) (first second : Value) : Prop :=
  ∃ related : Value → Value → Prop, related first second ∧
    ∀ first second, related first second →
      Matches heap (fun first second => related first second ∨ Assumed visiting first second)
        first second

theorem Supported.backed {first second : Value} (supported : Supported heap visiting first second) :
    Backed heap visiting first second ∨ Assumed visiting first second := by
  obtain ⟨related, progress, holds | assumed⟩ := supported
  · exact .inl ⟨related, holds, progress⟩
  · exact .inr assumed

theorem Backed.progress {first second : Value} (backed : Backed heap visiting first second) :
    Matches heap (fun first second => Backed heap visiting first second ∨ Assumed visiting first second)
      first second := by
  obtain ⟨related, holds, progress⟩ := backed
  apply (progress first second holds).mono
  intro first second step
  rcases step with holds | assumed
  · exact .inl ⟨related, holds, progress⟩
  · exact .inr assumed

theorem assumed_cons {left right : ArrayRef} {first second : Value}
    (assumed : Assumed ((left, right) :: visiting) first second) :
    (first = array left ∧ second = array right) ∨ Assumed visiting first second := by
  obtain ⟨pair, member, rfl, rfl⟩ := assumed
  rcases List.mem_cons.1 member with rfl | further
  · exact .inl ⟨rfl, rfl⟩
  · exact .inr ⟨pair, further, rfl, rfl⟩

/-- Two arrays are related with the pair itself as an assumption for their items, for then it is one of
the pairs that are related. -/
theorem supported_array {left right : ArrayRef}
    (items : List.Forall₂ (Supported heap ((left, right) :: visiting)) (heap.items left)
      (heap.items right)) : Supported heap visiting (array left) (array right) := by
  -- the pair that was assumed is added to the relation, so that it need not be assumed any more
  have discharge : ∀ first second, Backed heap ((left, right) :: visiting) first second ∨
      Assumed ((left, right) :: visiting) first second →
        (Backed heap ((left, right) :: visiting) first second ∨
          (first = array left ∧ second = array right)) ∨ Assumed visiting first second := by
    intro first second step
    rcases step with backed | assumed
    · exact .inl (.inl backed)
    · rcases assumed_cons assumed with pair | further
      · exact .inl (.inr pair)
      · exact .inr further
  refine ⟨fun first second => Backed heap ((left, right) :: visiting) first second ∨
    (first = array left ∧ second = array right), ?_, .inl (.inr ⟨rfl, rfl⟩)⟩
  intro first second step
  rcases step with backed | ⟨rfl, rfl⟩
  · exact backed.progress.mono discharge
  · exact items.imp fun first second supported => discharge first second supported.backed

mutual

theorem Compares.supported (clean : heap.WithoutNaN) : ∀ {visiting : List (ArrayRef × ArrayRef)}
    {first second : Value} {truth : Bool}, Compares heap visiting first second truth →
      truth = true → Supported heap visiting first second
  | _, first, second, _, .plain plain, equal => by
    refine ⟨fun left right => left = first ∧ right = second, ?_, .inl ⟨rfl, rfl⟩⟩
    rintro _ _ ⟨rfl, rfl⟩
    exact (matches_iff plain).2 equal
  | _, _, _, _, .known known, _ => by
    rcases known with rfl | met
    · exact supported_refl clean trivial
    · exact ⟨fun _ _ => False, fun _ _ impossible => impossible.elim, .inr ⟨_, met, rfl, rfl⟩⟩
  | _, _, _, _, .items _ _ pairs, equal => supported_array (pairs.supported clean equal)

theorem ComparesAll.supported (clean : heap.WithoutNaN) : ∀ {visiting : List (ArrayRef × ArrayRef)}
    {firsts seconds : List Value} {truth : Bool}, ComparesAll heap visiting firsts seconds truth →
      truth = true → List.Forall₂ (Supported heap visiting) firsts seconds
  | _, _, _, _, .nil, _ => .nil
  | _, _, _, _, .agree head tail, equal => .cons (head.supported clean rfl) (tail.supported clean equal)

end

/-! What is bisimilar compares equal. -/

mutual

theorem Compares.complete {related : Value → Value → Prop} (bisimulation : IsBisimulation heap related) :
    ∀ {visiting : List (ArrayRef × ArrayRef)} {first second : Value} {truth : Bool},
      Compares heap visiting first second truth → related first second → truth = true
  | _, _, _, _, .plain plain, holds => (matches_iff plain).1 (bisimulation _ _ holds)
  | _, _, _, _, .known _, _ => rfl
  | _, _, _, _, .lengths _ differ, holds => by
    have items := bisimulation _ _ holds
    exact absurd items.length_eq differ
  | _, _, _, _, .items _ _ pairs, holds => pairs.complete bisimulation (bisimulation _ _ holds)

theorem ComparesAll.complete {related : Value → Value → Prop}
    (bisimulation : IsBisimulation heap related) :
    ∀ {visiting : List (ArrayRef × ArrayRef)} {firsts seconds : List Value} {truth : Bool},
      ComparesAll heap visiting firsts seconds truth → List.Forall₂ related firsts seconds →
        truth = true
  | _, _, _, _, .nil, _ => rfl
  | _, _, _, _, .differ head, .cons holds _ => head.complete bisimulation holds
  | _, _, _, _, .agree _ tail, .cons _ others => tail.complete bisimulation others

end

theorem isEqual_iff (clean : heap.WithoutNaN) {first second : Value} :
    isEqual heap first second = true ↔ Bisimilar heap first second := by
  constructor
  · intro equal
    obtain ⟨related, progress, holds⟩ := (compares_isEqual first second).supported clean equal
    -- with no pair assumed the relation is a bisimulation
    have nothing : ∀ first second, ¬Assumed [] first second := by
      rintro first second ⟨pair, member, -⟩
      cases member
    refine ⟨related, fun first second step => ?_, holds.resolve_right (nothing _ _)⟩
    exact (progress first second step).mono fun left right reached => reached.resolve_right (nothing _ _)
  · rintro ⟨related, bisimulation, holds⟩
    exact (compares_isEqual first second).complete bisimulation holds

/-! Bisimilarity is an equivalence. -/

theorem Bisimilar.refl (clean : heap.WithoutNaN) {value : Value} (proper : value.WithoutNaN) :
    Bisimilar heap value value := by
  refine ⟨fun first second => first = second ∧ first.WithoutNaN, ?_, rfl, proper⟩
  rintro first second ⟨rfl, proper⟩
  exact .refl proper fun ref _ item inside => ⟨rfl, clean ref item inside⟩

theorem Matches.symm {related : Value → Value → Prop} {first second : Value}
    (fits : Matches heap related first second) :
    Matches heap (fun first second => related second first) second first := by
  cases first <;> cases second <;> try exact fits.elim
  case none.none => trivial
  case boolean.boolean => exact Eq.symm fits
  case number.number =>
    rw [Matches, Float.beq_iff_ne_nan_and_eq] at fits ⊢
    obtain ⟨left, right, same | ⟨first, second⟩ | ⟨first, second⟩⟩ := fits
    · exact ⟨right, left, .inl same.symm⟩
    · exact ⟨right, left, .inr (.inr ⟨second, first⟩)⟩
    · exact ⟨right, left, .inr (.inl ⟨second, first⟩)⟩
  case text.text => exact Eq.symm fits
  case array.array => exact fits.flip
  case function.function first second =>
    cases first <;> cases second <;> simp_all [Matches, Function.isSame]

theorem forall₂_comp {related others : Value → Value → Prop} {firsts seconds thirds : List Value}
    (left : List.Forall₂ related firsts seconds) (right : List.Forall₂ others seconds thirds) :
    List.Forall₂ (fun first third => ∃ second, related first second ∧ others second third)
      firsts thirds := by
  induction left generalizing thirds with
  | nil =>
    cases right
    exact .nil
  | cons head _ ih =>
    cases right with
    | cons head' tail' => exact .cons ⟨_, head, head'⟩ (ih tail')

theorem Matches.trans {related others : Value → Value → Prop} {first second third : Value}
    (fits : Matches heap related first second) (fits' : Matches heap others second third) :
    Matches heap (fun first third => ∃ second, related first second ∧ others second third) first third := by
  cases first <;> cases second <;> try exact fits.elim
  all_goals cases third <;> try exact fits'.elim
  case none.none.none => trivial
  case boolean.boolean.boolean => exact Eq.trans fits fits'
  case number.number.number =>
    rw [Matches, Float.beq_iff_ne_nan_and_eq] at fits fits' ⊢
    grind
  case text.text.text => exact Eq.trans fits fits'
  case array.array.array => exact forall₂_comp fits fits'
  case function.function.function first second third =>
    cases first <;> cases second <;> cases third <;> simp_all [Matches, Function.isSame]

theorem Bisimilar.symm {first second : Value} (bisimilar : Bisimilar heap first second) :
    Bisimilar heap second first := by
  obtain ⟨related, bisimulation, holds⟩ := bisimilar
  exact ⟨fun first second => related second first,
    fun first second step => (bisimulation second first step).symm, holds⟩

theorem Bisimilar.trans {first second third : Value} (bisimilar : Bisimilar heap first second)
    (others : Bisimilar heap second third) : Bisimilar heap first third := by
  obtain ⟨related, bisimulation, holds⟩ := bisimilar
  obtain ⟨related', bisimulation', holds'⟩ := others
  refine ⟨fun first third => ∃ second, related first second ∧ related' second third, ?_,
    second, holds, holds'⟩
  rintro first third ⟨second, step, step'⟩
  exact (bisimulation first second step).trans (bisimulation' second third step')

/-- Where `==` and `!=` compare, the one gives equality and the other its negation. Both refuse the same
operands. -/
theorem binary_equal (left right : Value) :
    (binary heap .equal left right = .ok (.value (.boolean (isEqual heap left right))) ∧
      binary heap .notEqual left right = .ok (.value (.boolean !isEqual heap left right))) ∨
    ∃ fault fault', binary heap .equal left right = .error fault ∧
      binary heap .notEqual left right = .error fault' := by
  cases left <;> cases right <;> first | exact .inl ⟨rfl, rfl⟩ | exact .inr ⟨_, _, rfl, rfl⟩

theorem isEqual_of_isSame {first second : Value} (same : isSame heap first second = true) :
    isEqual heap first second = true := by
  cases first <;> cases second <;> try exact same
  case array.array left right =>
    obtain rfl : left = right := of_decide_eq_true same
    exact (compares_isEqual _ _).unique (.known (.inl rfl))

/-- Every comparison of two values ends, with one answer: they are equal just if they are bisimilar. So
equality is an equivalence, `!=` is its negation, and what is one and the same is equal. -/
theorem equality_bisimilar {heap : Heap} (clean : heap.WithoutNaN) :
    (∀ first second,
      (∀ truth, Compares heap [] first second truth ↔ truth = isEqual heap first second) ∧
        (isEqual heap first second = true ↔ Bisimilar heap first second)) ∧
    (∀ value : Value, value.WithoutNaN → isEqual heap value value = true) ∧
    (∀ first second, isEqual heap first second = isEqual heap second first) ∧
    (∀ first second third, isEqual heap first second = true → isEqual heap second third = true →
      isEqual heap first third = true) ∧
    (∀ left right,
      (binary heap .equal left right = .ok (.value (.boolean (isEqual heap left right))) ∧
        binary heap .notEqual left right = .ok (.value (.boolean !isEqual heap left right))) ∨
      ∃ fault fault', binary heap .equal left right = .error fault ∧
        binary heap .notEqual left right = .error fault') ∧
    (∀ left right,
      binary heap .same left right = .ok (.value (.boolean (isSame heap left right))) ∧
      (isSame heap left right = true → isEqual heap left right = true)) := by
  refine ⟨fun first second => ⟨fun truth => ⟨fun compares => ?_, fun same => ?_⟩, isEqual_iff clean⟩,
    fun value proper => ?_, fun first second => ?_, fun first second third equal equal' => ?_,
    binary_equal, fun left right => ⟨rfl, isEqual_of_isSame⟩⟩
  · exact compares.unique (compares_isEqual first second)
  · exact same ▸ compares_isEqual first second
  · exact (isEqual_iff clean).2 (.refl clean proper)
  · rw [Bool.eq_iff_iff, isEqual_iff clean, isEqual_iff clean]
    exact ⟨Bisimilar.symm, Bisimilar.symm⟩
  · exact (isEqual_iff clean).2 (((isEqual_iff clean).1 equal).trans ((isEqual_iff clean).1 equal'))

def winding : Heap :=
  ⟨#[[.boolean true, .array ⟨0⟩], [.boolean true, .array ⟨2⟩], [.boolean true, .array ⟨1⟩]], 0⟩

/-- They differ in how soon they come back to themselves, and that does not make them unequal. -/
theorem equality_bisimilar_winding :
    winding.WithoutNaN ∧ isEqual winding (.array ⟨0⟩) (.array ⟨1⟩) = true ∧
      isSame winding (.array ⟨0⟩) (.array ⟨1⟩) = false ∧
      Bisimilar winding (.array ⟨0⟩) (.array ⟨1⟩) := by
  have clean : winding.WithoutNaN := by
    rintro ⟨_ | _ | _ | index⟩ item inside <;> simp [winding, Heap.items] at inside
    all_goals rcases inside with rfl | rfl <;> trivial
  have equal : isEqual winding (.array ⟨0⟩) (.array ⟨1⟩) = true := by decide +kernel
  exact ⟨clean, equal, by decide +kernel, (((equality_bisimilar clean).1 _ _).2).1 equal⟩

end Value

end TabScript
