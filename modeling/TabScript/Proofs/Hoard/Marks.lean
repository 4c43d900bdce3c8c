import TabScript.Scope.Reach

/-! Marking reaches everything: the marks that spread from some items cover these, and whatever a
marked item holds on to. -/

set_option autoImplicit false

namespace TabScript

namespace Marks

def Covers (marks : Marks) (item : Item) : Prop := marks.get? item ≠ some false

theorem get?_set_self {marks : Marks} {item : Item} {mark : Bool}
    (present : marks.get? item = some mark) : (marks.set item).get? item = some true := by
  cases item with
  | scope id =>
    have inside := (Array.getElem?_eq_some_iff.1 present).1
    simp [get?, set, inside]
  | array ref =>
    have inside := (Array.getElem?_eq_some_iff.1 present).1
    simp [get?, set, inside]

theorem get?_set_of_ne (marks : Marks) {item other : Item} (differ : other ≠ item) :
    (marks.set item).get? other = marks.get? other := by
  rcases item with ⟨⟨slot⟩⟩ | ⟨⟨index⟩⟩ <;> rcases other with ⟨⟨slot'⟩⟩ | ⟨⟨index'⟩⟩ <;>
    simp only [get?, set] <;> rw [Array.getElem?_setIfInBounds_ne] <;> rintro rfl <;> exact differ rfl

theorem Covers.set {marks : Marks} {item other : Item} (covers : marks.Covers other) :
    (marks.set item).Covers other := by
  by_cases same : other = item
  · subst same
    cases present : marks.get? other with
    | some mark => simp [Covers, get?_set_self present]
    | none =>
      -- A place that does not exist does not come into being.
      rcases other with ⟨⟨slot⟩⟩ | ⟨⟨index⟩⟩ <;>
        simp_all [Covers, get?, Marks.set]
  · unfold Covers
    rw [get?_set_of_ne marks same]
    exact covers

variable (arena : Arena) (heap : Heap)

def Followed (arena : Arena) (heap : Heap) (marks : Marks) (pending : List Item) : Prop :=
  ∀ item, marks.get? item = some true → ∀ held ∈ item.holds arena heap,
    marks.Covers held ∨ held ∈ pending

theorem spread_covers (marks : Marks) (pending : List Item)
    (followed : Followed arena heap marks pending) :
    Followed arena heap (marks.spread arena heap pending) [] ∧
      (∀ item, marks.Covers item → (marks.spread arena heap pending).Covers item) ∧
      ∀ item ∈ pending, (marks.spread arena heap pending).Covers item := by
  induction marks, pending using spread.induct arena heap with
  | case1 marks =>
    rw [spread]
    exact ⟨followed, fun item covers => covers, by simp⟩
  | case2 marks item rest unmarked ih =>
    rw [spread]
    split
    case h_2 other => exact absurd unmarked other
    have now : (marks.set item).get? item = some true := get?_set_self unmarked
    obtain ⟨closed, grown, reached⟩ := ih (by
      intro other marked held inside
      -- what this item holds waits from now on; what another marked item holds is covered or waits as before
      by_cases same : other = item
      · subst same
        exact .inr (List.mem_append_left _ inside)
      · rw [get?_set_of_ne marks same] at marked
        rcases followed other marked held inside with covers | waits
        · exact .inl covers.set
        · rcases List.mem_cons.1 waits with rfl | waits
          · exact .inl (by simp [Covers, now])
          · exact .inr (List.mem_append_right _ waits))
    refine ⟨closed, fun other covers => grown other covers.set, fun other inside => ?_⟩
    rcases List.mem_cons.1 inside with rfl | inside
    · exact grown other (by simp [Covers, now])
    · exact reached other (List.mem_append_right _ inside)
  | case3 marks item rest marked ih =>
    rw [spread]
    split
    case h_1 unmarked => exact absurd unmarked marked
    have covered : marks.Covers item := marked
    obtain ⟨closed, grown, reached⟩ := ih (by
      intro other marked held inside
      rcases followed other marked held inside with covers | waits
      · exact .inl covers
      · rcases List.mem_cons.1 waits with rfl | waits
        · exact .inl covered
        · exact .inr waits)
    refine ⟨closed, grown, fun other inside => ?_⟩
    rcases List.mem_cons.1 inside with rfl | inside
    · exact grown other covered
    · exact reached other inside

theorem get?_empty (item : Item) : (empty arena heap).get? item ≠ some true := by
  rcases item with ⟨⟨slot⟩⟩ | ⟨⟨index⟩⟩ <;>
    simp [get?, empty, Array.getElem?_replicate]

theorem size_set (marks : Marks) (item : Item) :
    (marks.set item).scopes.size = marks.scopes.size ∧
      (marks.set item).arrays.size = marks.arrays.size := by
  cases item <;> simp [set]

theorem size_spread (marks : Marks) (pending : List Item) :
    (marks.spread arena heap pending).scopes.size = marks.scopes.size ∧
      (marks.spread arena heap pending).arrays.size = marks.arrays.size := by
  induction marks, pending using spread.induct arena heap with
  | case1 marks =>
    rw [spread]
    exact ⟨rfl, rfl⟩
  | case2 marks item rest unmarked ih =>
    rw [spread]
    split
    case h_2 other => exact absurd unmarked other
    have same := marks.size_set item
    exact ⟨ih.1.trans same.1, ih.2.trans same.2⟩
  | case3 marks item rest marked ih =>
    rw [spread]
    split
    case h_1 unmarked => exact absurd unmarked marked
    exact ih

end Marks

end TabScript
