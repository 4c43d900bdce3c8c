import TabScript.Proofs.Hoard.Hoard

/-! The part of the stack below a call, as long as the call lasts.

Calls are entered, asked for and left above it, and it is the same until the call returns. -/

set_option autoImplicit false

namespace TabScript

def Passage.Lasts : List Call → List Passage → Prop
  | since, [] => since ≠ []
  | since, passage :: rest => since ≠ [] ∧ Lasts (Passage.follow since passage) rest

namespace Passage

instance Lasts.decidable : ∀ (since : List Call) (passages : List Passage),
    Decidable (Lasts since passages)
  | since, [] => inferInstanceAs (Decidable (since ≠ []))
  | since, passage :: rest =>
    have := decidable (follow since passage) rest
    inferInstanceAs (Decidable (since ≠ [] ∧ Lasts (follow since passage) rest))

variable {since : List Call} {before after : List Passage}

theorem Lasts.some_left (lasts : Lasts since before) : since ≠ [] := by
  cases before with
  | nil => exact lasts
  | cons passage rest => exact lasts.1

theorem Lasts.at_end (lasts : Lasts since before) : before.foldl follow since ≠ [] := by
  induction before generalizing since with
  | nil => exact lasts
  | cons passage rest ih => exact ih lasts.2

theorem Lasts.of_append (lasts : Lasts since (before ++ after)) : Lasts since before := by
  induction before generalizing since with
  | nil => exact lasts.some_left
  | cons passage rest ih => exact ⟨lasts.1, ih lasts.2⟩

theorem Lasts.append (lasts : Lasts since before) (rest : Lasts (before.foldl follow since) after) :
    Lasts since (before ++ after) := by
  induction before generalizing since with
  | nil => exact rest
  | cons passage others ih => exact ⟨lasts.1, ih lasts.2 rest⟩

theorem returned_of_not_lasts {passages : List Passage} (begun : since ≠ [])
    (over_ : ¬Lasts since passages) :
    ∃ before value after, passages = before ++ .returned value :: after ∧ Lasts since before ∧
      (before.foldl follow since).tail = [] := by
  induction passages generalizing since with
  | nil => exact absurd begun over_
  | cons passage rest ih =>
    by_cases left : follow since passage = []
    · cases passage with
      | entered scope => exact absurd left begun
      | called closure arguments => cases left
      | returned value => exact ⟨[], value, rest, rfl, begun, left⟩
    · obtain ⟨before, value, after, rfl, lasts, last⟩ :=
        ih left fun further => over_ ⟨begun, further⟩
      exact ⟨passage :: before, value, after, rfl, ⟨begun, lasts⟩, last⟩

end Passage

namespace Segment

variable {σ : Type} {first third later above base : List Segment} {before after passages : List Passage}
  {since : List Call}

theorem Passes.split (passes : Passes σ first (before ++ after) third) :
    ∃ second, Passes σ first before second ∧ Passes σ second after third := by
  generalize whole : before ++ after = passages at passes
  induction passes generalizing before with
  | done segments =>
    obtain ⟨rfl, rfl⟩ := List.append_eq_nil_iff.1 whole
    exact ⟨segments, .done _, .done _⟩
  | inside moves _ ih =>
    obtain ⟨second, start, rest⟩ := ih whole
    exact ⟨second, .inside moves start, rest⟩
  | entered rest ih =>
    cases before with
    | nil =>
      rw [List.nil_append] at whole
      subst whole
      exact ⟨_, .done _, .entered rest⟩
    | cons passage before =>
      cases whole
      obtain ⟨second, start, rest⟩ := ih rfl
      exact ⟨second, .entered start, rest⟩
  | called recalls awaits rest ih =>
    cases before with
    | nil =>
      rw [List.nil_append] at whole
      subst whole
      exact ⟨_, .done _, .called recalls awaits rest⟩
    | cons passage before =>
      cases whole
      obtain ⟨second, start, rest⟩ := ih rfl
      exact ⟨second, .called recalls awaits start, rest⟩
  | returned answers rest ih =>
    cases before with
    | nil =>
      rw [List.nil_append] at whole
      subst whole
      exact ⟨_, .done _, .returned answers rest⟩
    | cons passage before =>
      cases whole
      obtain ⟨second, start, rest⟩ := ih rfl
      exact ⟨second, .returned answers start, rest⟩

theorem first_of_named (named : above.map call? = since.map some) (left : since ≠ []) :
    ∃ top others call, above = top :: others ∧ top.call? = some call := by
  cases since with
  | nil => exact absurd rfl left
  | cons call rest =>
    cases above with
    | nil => cases named
    | cons top others => exact ⟨top, others, call, rfl, (List.cons.inj named).1⟩

theorem opened_changed (owner : Option Call) (scope : ScopeId) (activities changed : List Activity)
    (below : List Segment) :
    (active owner scope changed :: below).filterMap opened? =
      (active owner scope activities :: below).filterMap opened? := by
  cases owner <;> rfl

/-- As long as the calls above last, nothing below them changes, and their scopes are those that were
there and those that are opened on the way. -/
theorem Passes.lasting (passes : Passes σ (above ++ base) passages later)
    (named : above.map call? = since.map some) (lasts : Passage.Lasts since passages) :
    ∃ kept, later = kept ++ base ∧
      kept.map call? = (passages.foldl Passage.follow since).map some ∧
      ∀ scope ∈ kept.filterMap opened?,
        scope ∈ above.filterMap opened? ∨ scope ∈ passages.filterMap Passage.opened? := by
  generalize stacked : above ++ base = segments at passes
  -- a passage changes the segments on top only, and these are above because calls are left
  induction passes generalizing above since with
  | done segments => exact ⟨above, stacked.symm, named, fun scope inside => .inl inside⟩
  | @inside owner scope activities changed below final passages moves rest ih =>
    obtain ⟨top, others, -, rfl, -⟩ := first_of_named named lasts.some_left
    cases stacked
    obtain ⟨kept, rfl, names, opened⟩ :=
      @ih (.active owner scope changed :: others) since named lasts rfl
    rw [opened_changed owner scope activities changed] at opened
    exact ⟨kept, rfl, names, opened⟩
  | @entered call scope below final passages rest ih =>
    obtain ⟨top, others, -, rfl, -⟩ := first_of_named named lasts.some_left
    cases stacked
    obtain ⟨kept, rfl, names, opened⟩ :=
      @ih (.active (some call) scope [.body call.closure scope] :: others) since named lasts.2 rfl
    refine ⟨kept, rfl, names, fun other inside => ?_⟩
    rcases opened other inside with here | further
    · rcases List.mem_cons.1 here with rfl | old
      · exact .inr List.mem_cons_self
      · exact .inl old
    · exact .inr (List.mem_cons_of_mem _ further)
  | @called call owner scope top replay activities below final passages recalls awaits rest ih =>
    obtain ⟨first, others, -, rfl, -⟩ := first_of_named named lasts.some_left
    cases stacked
    obtain ⟨kept, rfl, names, opened⟩ :=
      @ih (.pending call :: .active owner scope ({ top with replay } :: activities) :: others)
        (call :: since) (by simp only [List.map_cons, ← named, call?]) lasts.2 rfl
    refine ⟨kept, rfl, names, fun other inside => ?_⟩
    rw [← opened_changed owner scope (top :: activities) ({ top with replay } :: activities)]
    exact opened other inside
  | @returned value segments between final passages answers rest ih =>
    obtain @⟨call, callee, scope, owner, ended, activities, caller, slot, stop, below, awaits, waits⟩ :=
      answers
    obtain ⟨first, others, -, rfl, -⟩ := first_of_named named lasts.some_left
    have remain : others.map call? = since.tail.map some := by
      rw [List.map_tail, ← named]
      rfl
    -- the caller is above as well, since calls are left after the return
    obtain ⟨second, others, -, rfl, -⟩ := first_of_named remain lasts.2.some_left
    cases stacked
    obtain ⟨kept, rfl, names, opened⟩ :=
      @ih (.active owner scope (caller.answered slot stop value :: activities) :: others)
        since.tail remain lasts.2 rfl
    rw [opened_changed owner scope (caller :: activities)] at opened
    refine ⟨kept, rfl, names, fun other inside => ?_⟩
    exact (opened other inside).imp (List.mem_cons_of_mem _) id

/-- A call that returns takes its scope with it and leaves the others. -/
theorem Passes.opened_of_returned {top : Segment} {value : Value}
    (passes : Passes σ (top :: base) [.returned value] later) :
    later.filterMap opened? = base.filterMap opened? := by
  generalize single : [Passage.returned value] = passages at passes
  generalize stacked : top :: base = segments at passes
  induction passes generalizing top with
  | done => cases single
  | inside _ _ ih =>
    cases stacked
    exact ih single rfl
  | entered => cases single
  | called => cases single
  | returned answers rest =>
    cases answers
    cases single
    cases stacked
    exact rest.scopes.trans (opened_changed _ _ _ _ _)

theorem Passes.all_returned {value : Value} (passes : Passes σ (above ++ base) (before ++ [.returned value]) later)
    (named : above.map call? = since.map some) (lasts : Passage.Lasts since before)
    (left : (before ++ [Passage.returned value]).foldl Passage.follow since = []) :
    later.filterMap opened? = base.filterMap opened? := by
  obtain ⟨between, start, rest⟩ := passes.split
  obtain ⟨kept, rfl, names, -⟩ := start.lasting named lasts
  rw [List.foldl_append] at left
  have remain := lasts.at_end
  generalize before.foldl Passage.follow since = calls at left names remain
  obtain ⟨call, rfl⟩ : ∃ call, calls = [call] := by
    cases calls with
    | nil => exact absurd rfl remain
    | cons call others => exact ⟨call, congrArg (call :: ·) left⟩
  obtain ⟨top, rfl⟩ := List.length_eq_one_iff.1 ((List.length_map _).symm.trans (congrArg List.length names))
  exact rest.opened_of_returned

end Segment

end TabScript
