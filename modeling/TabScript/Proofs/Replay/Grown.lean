import TabScript.Proofs.Replay.Tracks

/-! What an attempt at a statement finds, and what it leaves behind.

An attempt finds every expression in the slot that the track says, and leaves a track that has grown: what was known
stays, what the attempt came to is known now, and nothing else is. -/

set_option autoImplicit false

namespace TabScript

variable {σ : Type}

namespace Evaluation

open Track

/-- The evaluation of expressions comes to the part on a path, in this state. The path counts the expressions, then the
parts of the one, and so on: an expression that is not known evaluates its parts (`eval_parts`), one that is known none
of them. -/
inductive Comes (surroundings : Surroundings σ) :
    (Value → Bool) → List Node → Progress σ → List Nat → Node → Progress σ → Prop where
  | first {goesOn : Value → Bool} {node : Node} {nodes : List Node} {before : Progress σ} :
    Comes surroundings goesOn (node :: nodes) before [0] node before
  | inside {goesOn : Value → Bool} {node part : Node} {nodes : List Node} {before here : Progress σ}
    {slot index : Nat} {opened : Replay} {path : List Nat} (fresh : before.replay.take = (.fresh slot, opened))
    (inner : Comes surroundings (fun _ => true) node.parts (before.world.progress opened) (index :: path) part here) :
    Comes surroundings goesOn (node :: nodes) before (0 :: index :: path) part here
  | later {goesOn : Value → Bool} {node part : Node} {nodes : List Node} {before between here : Progress σ}
    {value : Value} {index : Nat} {path : List Nat} (found : eval surroundings node before = (.ok value, between))
    (on : goesOn value = true) (behind : Comes surroundings goesOn nodes between (index :: path) part here) :
    Comes surroundings goesOn (node :: nodes) before ((index + 1) :: path) part here

inductive Grows (surroundings : Surroundings σ) (resumed : Bool) :
    (Value → Bool) → List Node → List Slot → World σ → Track → Track → Prop where
  | nothing {goesOn : Value → Bool} {passed : List Slot} {world : World σ} :
    Grows surroundings resumed goesOn [] passed world .untouched .untouched
  | replayed {goesOn : Value → Bool} {node : Node} {nodes : List Node} {passed : List Slot} {world : World σ}
    {value : Value} {parts others grown : Track} (complete : parts.Complete)
    (rest : Grows surroundings resumed goesOn (onward goesOn value nodes) (passing passed value parts) world others
      grown) :
    Grows surroundings resumed goesOn (node :: nodes) passed world (.begun (some value) parts others)
      (.begun (some value) parts grown)
  | finished {goesOn : Value → Bool} {node : Node} {nodes : List Node} {passed : List Slot} {world later : World σ}
    {value : Value} {track parts inner grown : Track} (unfinished : Unfinished track parts)
    (within : Grows surroundings resumed (fun _ => true) node.parts (passed ++ [none]) world parts inner)
    (complete : inner.Complete)
    (found : eval surroundings node (world.facing passed track resumed) =
      (.ok value, later.facing (passing passed value inner) .untouched resumed))
    (rest : Grows surroundings resumed goesOn (onward goesOn value nodes) (passing passed value inner) later .untouched
      grown) :
    Grows surroundings resumed goesOn (node :: nodes) passed world track (.begun (some value) inner grown)
  | left {goesOn : Value → Bool} {node : Node} {nodes : List Node} {passed : List Slot} {world : World σ}
    {interrupt : Interrupt} {after : Progress σ} {track parts inner : Track} (unfinished : Unfinished track parts)
    (within : Grows surroundings resumed (fun _ => true) node.parts (passed ++ [none]) world parts inner)
    (stopped : eval surroundings node (world.facing passed track resumed) = (.error interrupt, after)) :
    Grows surroundings resumed goesOn (node :: nodes) passed world track (.begun none inner .untouched)

variable {surroundings : Surroundings σ} {resumed : Bool} {goesOn : Value → Bool} {node part : Node}
  {nodes : List Node} {passed : List Slot} {world : World σ} {track parts others grown : Track} {path : List Nat}
  {here : Progress σ} {value : Value} {slot : Nat}

/-- An expression that is known answers at once, whatever the world has become. -/
theorem eval_of_replayed {replay later : Replay} (taken : replay.take = (.replayed value, later))
    (surroundings : Surroundings σ) (node : Node) (world : World σ) :
    eval surroundings node (world.progress replay) = (.ok value, world.progress later) := by
  rw [eval_parts]
  exact remember_of_replayed taken

theorem eval_finished (surroundings : Surroundings σ) (node : Node) (world : World σ) (passed : List Slot)
    (value : Value) (parts others : Track) (resumed : Bool) :
    eval surroundings node (world.facing passed (.begun (some value) parts others) resumed) =
      (.ok value, world.facing (passing passed value parts) others resumed) :=
  eval_of_replayed (take_finished passed value parts others resumed) _ _ _

theorem Comes.onward {before : Progress σ} (on : goesOn value = true)
    (comes : Comes surroundings goesOn nodes before path part here) :
    Comes surroundings goesOn (Track.onward goesOn value nodes) before path part here := by
  rw [Track.onward, if_pos on]
  exact comes

theorem Comes.on {before : Progress σ}
    (comes : Comes surroundings goesOn (Track.onward goesOn value nodes) before path part here) :
    goesOn value = true ∧ Comes surroundings goesOn nodes before path part here := by
  cases on : goesOn value with
  | false =>
    rw [Track.onward, if_neg (by simp [on])] at comes
    cases comes
  | true =>
    rw [Track.onward, if_pos on] at comes
    exact ⟨rfl, comes⟩

theorem Comes.not_nil {before : Progress σ} (comes : Comes surroundings goesOn nodes before path part here) :
    path ≠ [] := by
  cases comes <;> exact List.cons_ne_nil _ _

/-- In this state the memory says of the next part what the track says of the one on the path. A part that was not
begun stands behind all that were. -/
def Faces (resumed : Bool) (passed : List Slot) (track : Track) (path : List Nat) (here : Progress σ) : Prop :=
  ∃ (before : List Slot) (world : World σ) (rest : Track), here = world.facing before rest resumed ∧
    track.find passed.length path = rest.find before.length [0] ∧
    (rest = .untouched → passed.length + track.size ≤ before.length)

theorem faces_first (world : World σ) (passed : List Slot) (track : Track) (resumed : Bool) :
    Faces resumed passed track [0] (world.facing passed track resumed) := by
  refine ⟨passed, world, track, rfl, rfl, fun none => ?_⟩
  rw [none, size]
  exact Nat.le_refl _

theorem Faces.inside (unfinished : Unfinished track parts) {index : Nat}
    (faces : Faces resumed (passed ++ [none]) parts (index :: path) here) :
    Faces resumed passed track (0 :: index :: path) here := by
  obtain ⟨before, world, rest, same, marks, behind⟩ := faces
  rw [List.length_append, List.length_singleton] at marks behind
  refine ⟨before, world, rest, same, (unfinished.find_inside _ _ _).trans marks, fun none => ?_⟩
  have outside := behind none
  have begun := unfinished.size_le
  omega

theorem Faces.finished {index : Nat} (faces : Faces resumed (passing passed value parts) others (index :: path) here) :
    Faces resumed passed (.begun (some value) parts others) ((index + 1) :: path) here := by
  obtain ⟨before, world, rest, same, marks, behind⟩ := faces
  rw [length_passing] at marks behind
  refine ⟨before, world, rest, same, marks, fun none => ?_⟩
  have outside := behind none
  simp only [size]
  omega

theorem Faces.later (unfinished : Unfinished track parts) {index : Nat} (larger : parts.size ≤ others.size)
    (faces : Faces resumed (passing passed value others) .untouched (index :: path) here) :
    Faces resumed passed track ((index + 1) :: path) here := by
  obtain ⟨before, world, rest, same, marks, behind⟩ := faces
  rw [length_passing] at marks behind
  refine ⟨before, world, rest, same, (unfinished.find_later _ _ _).trans marks, fun none => ?_⟩
  have outside := behind none
  have begun := unfinished.size_le
  simp only [size] at outside
  omega

theorem Faces.replayed (faces : Faces resumed passed track path here)
    (found : track.find passed.length path = some (slot, some value)) :
    here.replay.cursor = slot ∧ ∃ later, here.replay.take = (.replayed value, later) := by
  obtain ⟨before, world, rest, rfl, marks, -⟩ := faces
  rw [found] at marks
  cases rest with
  | untouched => cases marks
  | begun known parts others =>
    cases marks
    exact ⟨rfl, _, take_finished before value parts others resumed⟩

theorem Faces.fresh (faces : Faces resumed passed track path here)
    (found : track.find passed.length path = some (slot, none)) : ∃ opened, here.replay.take = (.fresh slot, opened) := by
  obtain ⟨before, world, rest, rfl, marks, -⟩ := faces
  rw [found] at marks
  cases rest with
  | untouched => cases marks
  | begun known parts others =>
    cases marks
    exact ⟨_, Replay.take_empty before _ resumed⟩

theorem Faces.new (faces : Faces resumed passed track path here) (found : track.find passed.length path = none) :
    (∃ opened, here.replay.take = (.fresh here.replay.slots.size, opened)) ∧
      passed.length + track.size ≤ here.replay.slots.size := by
  obtain ⟨before, world, rest, rfl, marks, behind⟩ := faces
  rw [found] at marks
  cases rest with
  | begun known parts others => cases marks
  | untouched =>
    have last : (world.facing before .untouched resumed).replay.slots.size = before.length := by
      simp [World.facing, slots, Replay.behind]
    rw [last]
    exact ⟨⟨_, Replay.take_end before resumed⟩, behind rfl⟩

def Met (surroundings : Surroundings σ) (goesOn : Value → Bool) (nodes : List Node) (before : Progress σ) (start : Nat)
    (track : Track) (path : List Nat) (known : Option Value) : Prop :=
  (∃ part here, Comes surroundings goesOn nodes before path part here) ∨
    known.isSome = true ∧ ∃ upper more slot value part here, path = upper ++ more ∧ more ≠ [] ∧
      track.find start upper = some (slot, some value) ∧ Comes surroundings goesOn nodes before upper part here

/-- What is met among some expressions is met among those around them, at the end of a longer path. -/
theorem Met.lift {goesOn' : Value → Bool} {nodes' : List Node} {before before' : Progress σ} {start start' : Nat}
    {track' : Track} {known : Option Value} (met : Met surroundings goesOn nodes before start track path known)
    (lift : List Nat → List Nat) (append : ∀ upper more, upper ≠ [] → lift (upper ++ more) = lift upper ++ more)
    (finds : ∀ upper, upper ≠ [] → track'.find start' (lift upper) = track.find start upper)
    (lifts : ∀ upper part here, Comes surroundings goesOn nodes before upper part here →
      Comes surroundings goesOn' nodes' before' (lift upper) part here) :
    Met surroundings goesOn' nodes' before' start' track' (lift path) known := by
  rcases met with ⟨part, here, comes⟩ | ⟨finished, upper, more, slot, value, part, here, rfl, some_, found, comes⟩
  · exact .inl ⟨part, here, lifts _ _ _ comes⟩
  · refine .inr ⟨finished, lift upper, more, slot, value, part, here, append _ _ comes.not_nil, some_, ?_,
      lifts _ _ _ comes⟩
    rw [finds _ comes.not_nil, found]

theorem Comes.inside_facing (unfinished : Unfinished track parts) (goesOn : Value → Bool) (nodes : List Node)
    (comes : Comes surroundings (fun _ => true) node.parts (world.facing (passed ++ [none]) parts resumed) path part
      here) :
    Comes surroundings goesOn (node :: nodes) (world.facing passed track resumed) (0 :: path) part here := by
  cases path with
  | nil => exact absurd rfl comes.not_nil
  | cons => exact .inside (unfinished.take passed resumed) comes

theorem Met.inside (unfinished : Unfinished track parts) {known : Option Value} (goesOn : Value → Bool)
    (nodes : List Node)
    (met : Met surroundings (fun _ => true) node.parts (world.facing (passed ++ [none]) parts resumed)
      (passed ++ [none]).length parts path known) :
    Met surroundings goesOn (node :: nodes) (world.facing passed track resumed) passed.length track (0 :: path)
      known := by
  refine met.lift (0 :: ·) (fun _ _ _ => rfl) (fun upper some_ => ?_) fun _ _ _ comes =>
    comes.inside_facing unfinished goesOn nodes
  rw [List.length_append, List.length_singleton]
  cases upper with
  | nil => exact absurd rfl some_
  | cons index rest => exact unfinished.find_inside _ _ _

theorem Comes.above {before : Progress σ} {upper more : List Nat}
    (comes : Comes surroundings goesOn nodes before (upper ++ more) part here) (some_ : upper ≠ [])
    (inside : more ≠ []) : ∃ whole there slot opened, Comes surroundings goesOn nodes before upper whole there ∧
      there.replay.take = (.fresh slot, opened) := by
  generalize split : upper ++ more = path at comes
  induction comes generalizing upper with
  | first =>
    cases upper with
    | nil => exact absurd rfl some_
    | cons index upper => exact absurd (List.append_eq_nil_iff.1 (List.cons.inj split).2).2 inside
  | inside fresh inner ih =>
    cases upper with
    | nil => exact absurd rfl some_
    | cons index upper =>
      obtain ⟨rfl, within⟩ := List.cons.inj split
      cases upper with
      | nil => exact ⟨_, _, _, _, .first, fresh⟩
      | cons index upper =>
        obtain ⟨whole, there, slot, opened, comes, taken⟩ := ih (List.cons_ne_nil _ _) within
        exact ⟨whole, there, slot, opened, .inside fresh comes, taken⟩
  | later found on behind ih =>
    cases upper with
    | nil => exact absurd rfl some_
    | cons first upper =>
      obtain ⟨rfl, rfl⟩ := List.cons.inj split
      obtain ⟨whole, there, slot, opened, comes, taken⟩ := ih (List.cons_ne_nil _ upper) rfl
      exact ⟨whole, there, slot, opened, .later found on comes, taken⟩

namespace Grows

theorem size_le (grows : Grows surroundings resumed goesOn nodes passed world track grown) :
    track.size ≤ grown.size := by
  induction grows with
  | nothing => exact Nat.le_refl _
  | replayed _ _ ih => simpa only [size, Nat.add_le_add_iff_left] using ih
  | finished unfinished _ _ _ _ ih =>
    have begun := unfinished.size_le
    simp only [size]
    omega
  | left unfinished _ _ ih =>
    have begun := unfinished.size_le
    simp only [size]
    omega

theorem fits (grows : Grows surroundings resumed goesOn nodes passed world track grown) :
    grown.Fits goesOn nodes := by
  induction grows with
  | nothing => trivial
  | replayed complete _ ih => exact ⟨complete, ih⟩
  | finished _ _ complete _ _ _ ih => exact ⟨complete, ih⟩
  | left _ _ _ ih => exact ⟨ih, rfl⟩

theorem kept (grows : Grows surroundings resumed goesOn nodes passed world track grown) :
    Kept passed.length track grown := by
  induction grows with
  | nothing => exact fun _ _ _ found => nomatch found
  | replayed _ _ ih => exact kept_later (by simpa only [length_passing] using ih)
  | finished unfinished _ _ _ _ ih => exact unfinished.kept (by simpa only [List.length_append, List.length_singleton] using ih)
  | left unfinished _ _ ih => exact unfinished.kept (by simpa only [List.length_append, List.length_singleton] using ih)

theorem faces (grows : Grows surroundings resumed goesOn nodes passed world track grown)
    (comes : Comes surroundings goesOn nodes (world.facing passed track resumed) path part here) :
    Faces resumed passed track path here := by
  induction grows generalizing path with
  | nothing => cases comes
  | @replayed goesOn node nodes passed world value parts others grown complete rest ih =>
    cases comes with
    | first => exact faces_first _ _ _ _
    | inside fresh => cases (take_finished passed value parts others resumed).symm.trans fresh
    | later found on behind =>
      cases (eval_finished surroundings node world passed value parts others resumed).symm.trans found
      exact (ih (behind.onward on)).finished
  | finished unfinished within _ found _ ihInner ihRest =>
    cases comes with
    | first => exact faces_first _ _ _ _
    | inside fresh behind =>
      cases (unfinished.take _ resumed).symm.trans fresh
      exact (ihInner behind).inside unfinished
    | later found' on behind =>
      cases found.symm.trans found'
      exact (ihRest (behind.onward on)).later unfinished within.size_le
  | left unfinished _ stopped ih =>
    cases comes with
    | first => exact faces_first _ _ _ _
    | inside fresh behind =>
      cases (unfinished.take _ resumed).symm.trans fresh
      exact (ih behind).inside unfinished
    | later found => cases stopped.symm.trans found

theorem notes (grows : Grows surroundings resumed goesOn nodes passed world track grown)
    (comes : Comes surroundings goesOn nodes (world.facing passed track resumed) path part here) :
    grown.find passed.length path = some (here.replay.cursor, (eval surroundings part here).1.toOption) := by
  induction grows generalizing path with
  | nothing => cases comes
  | @replayed goesOn node nodes passed world value parts others grown complete rest ih =>
    cases comes with
    | first =>
      rw [eval_finished]
      rfl
    | inside fresh => cases (take_finished passed value parts others resumed).symm.trans fresh
    | later found on behind =>
      cases (eval_finished surroundings node world passed value parts others resumed).symm.trans found
      have marks := ih (behind.onward on)
      rwa [length_passing] at marks
  | finished unfinished _ _ found _ ihInner ihRest =>
    cases comes with
    | first =>
      rw [found]
      rfl
    | inside fresh behind =>
      cases (unfinished.take _ resumed).symm.trans fresh
      have marks := ihInner behind
      rwa [List.length_append] at marks
    | later found' on behind =>
      cases found.symm.trans found'
      have marks := ihRest (behind.onward on)
      rwa [length_passing] at marks
  | left unfinished _ stopped ih =>
    cases comes with
    | first =>
      rw [stopped]
      rfl
    | inside fresh behind =>
      cases (unfinished.take _ resumed).symm.trans fresh
      have marks := ih behind
      rwa [List.length_append] at marks
    | later found => cases stopped.symm.trans found

/-- What is known behind the evaluation was known before, or the evaluation came to it. -/
theorem comes_of_find (grows : Grows surroundings resumed goesOn nodes passed world track grown)
    (known : grown.find passed.length path ≠ none) : track.find passed.length path ≠ none ∨
      ∃ part here, Comes surroundings goesOn nodes (world.facing passed track resumed) path part here := by
  induction grows generalizing path with
  | nothing => exact absurd rfl known
  | @replayed goesOn node nodes passed world value parts others grown complete rest ih =>
    match path with
    | [] | [0] | 0 :: _ :: _ => exact .inl known
    | (index + 1) :: path =>
      rw [length_passing] at ih
      refine (ih known).imp_right fun ⟨part, here, comes⟩ => ⟨part, here, ?_⟩
      exact .later (eval_finished surroundings node world passed value parts others resumed) comes.on.1 comes.on.2
  | finished unfinished _ _ found _ ihInner ihRest =>
    match path with
    | [] => exact absurd rfl known
    | [0] => exact .inr ⟨_, _, .first⟩
    | 0 :: index :: path =>
      rw [List.length_append] at ihInner
      rw [unfinished.find_inside]
      exact (ihInner known).imp_right fun ⟨part, here, comes⟩ => ⟨part, here, comes.inside_facing unfinished _ _⟩
    | (index + 1) :: path =>
      rw [length_passing] at ihRest
      rcases ihRest known with known | ⟨part, here, comes⟩
      · exact absurd rfl known
      · exact .inr ⟨part, here, .later found comes.on.1 comes.on.2⟩
  | left unfinished _ _ ih =>
    match path with
    | [] | (_ + 1) :: _ => exact absurd rfl known
    | [0] => exact .inr ⟨_, _, .first⟩
    | 0 :: index :: path =>
      rw [List.length_append] at ih
      rw [unfinished.find_inside]
      exact (ih known).imp_right fun ⟨part, here, comes⟩ => ⟨part, here, comes.inside_facing unfinished _ _⟩

/-- The evaluation comes to all that was begun, but for the parts of what was finished. -/
theorem met (grows : Grows surroundings resumed goesOn nodes passed world track grown) {known : Option Value}
    (found : track.find passed.length path = some (slot, known)) :
    Met surroundings goesOn nodes (world.facing passed track resumed) passed.length track path known := by
  induction grows generalizing path with
  | nothing => cases found
  | @replayed goesOn node nodes passed world value parts others grown complete rest ih =>
    match path with
    | [] => cases found
    | [0] => exact .inl ⟨_, _, .first⟩
    | 0 :: index :: path =>
      refine .inr ⟨?_, [0], index :: path, passed.length, value, _, _, rfl, List.cons_ne_nil _ _, rfl, .first⟩
      cases known with
      | none => exact absurd found (complete.find_ne _ _ _)
      | some => rfl
    | (index + 1) :: path =>
      rw [length_passing] at ih
      -- the path goes on behind the first expression, and so does every path to something around its end
      let lift : List Nat → List Nat := fun path => (path.headD 0 + 1) :: path.tail
      refine (ih found).lift lift (fun upper more some_ => ?_) (fun upper some_ => ?_) fun upper part here comes => ?_
      · cases upper with
        | nil => exact absurd rfl some_
        | cons => rfl
      · cases upper with
        | nil => exact absurd rfl some_
        | cons => rfl
      · cases upper with
        | nil => exact absurd rfl comes.not_nil
        | cons =>
          exact .later (eval_finished surroundings node world passed value parts others resumed) comes.on.1 comes.on.2
  | finished unfinished _ _ _ _ ih _ | left unfinished _ _ ih =>
    match path with
    | [] => cases (find_nil _ _).symm.trans found
    | [0] => exact .inl ⟨_, _, .first⟩
    | 0 :: index :: path =>
      rw [unfinished.find_inside] at found
      refine Met.inside unfinished _ _ (ih ?_)
      rw [List.length_append]
      exact found
    | (index + 1) :: path => cases (unfinished.find_later _ _ _).symm.trans found

end Grows

end Evaluation

end TabScript
