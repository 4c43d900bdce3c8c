import TabScript.Proofs.Replay.Parts

/-! The expressions of a statement, as they stand in its memory.

The slots of a memory form a tree again: a track. It tells of every expression that was begun its slot and, if it was
finished, its value. The answer to a call turns one unfinished expression into a finished one. -/

set_option autoImplicit false

namespace TabScript

variable {σ : Type}

/-- What is known of expressions that are evaluated one after the other. The first one was begun, and has a value if
it was finished; then come its parts and the expressions behind it. -/
inductive Track where
  | untouched
  | begun (value : Option Value) (parts others : Track)

namespace Track

def size : Track → Nat
  | untouched => 0
  | begun _ parts others => 1 + parts.size + others.size

def slots (start : Nat) : Track → List Slot
  | untouched => []
  | begun value parts others =>
    value.map (fun value => ⟨value, start + 1 + parts.size⟩) ::
      (parts.slots (start + 1) ++ others.slots (start + 1 + parts.size))

def find (start : Nat) : Track → List Nat → Option (Nat × Option Value)
  | begun value _ _, [0] => some (start, value)
  | begun _ parts _, 0 :: index :: path => parts.find (start + 1) (index :: path)
  | begun _ parts others, (index + 1) :: path => others.find (start + 1 + parts.size) (index :: path)
  | _, _ => none

def Complete : Track → Prop
  | untouched => True
  | begun value parts others => value.isSome = true ∧ parts.Complete ∧ others.Complete

def onward (goesOn : Value → Bool) (value : Value) (nodes : List Node) : List Node :=
  if goesOn value then nodes else []

/-- The track can tell of these expressions. Nothing was begun behind what was not finished. -/
def Fits : (Value → Bool) → List Node → Track → Prop
  | _, _, untouched => True
  | _, [], begun .. => False
  | goesOn, _ :: nodes, begun (some value) parts others =>
    parts.Complete ∧ Fits goesOn (onward goesOn value nodes) others
  | _, node :: _, begun none parts others => Fits (fun _ => true) node.parts parts ∧ others = untouched

inductive Unfinished : Track → Track → Prop where
  | untouched : Unfinished untouched untouched
  | left (parts : Track) : Unfinished (begun none parts untouched) parts

def passing (passed : List Slot) (value : Value) (parts : Track) : List Slot :=
  passed ++ (begun (some value) parts untouched).slots passed.length

inductive Awaits (answer : Value) : Nat → Track → List Nat → Nat → Nat → Track → Prop where
  | call {start : Nat} {parts : Track} (complete : parts.Complete) :
    Awaits answer start (begun none parts untouched) [0] start (start + 1 + parts.size)
      (begun (some answer) parts untouched)
  | inside {start index slot stop : Nat} {path : List Nat} {parts answered : Track}
    (inner : Awaits answer (start + 1) parts (index :: path) slot stop answered) :
    Awaits answer start (begun none parts untouched) (0 :: index :: path) slot stop (begun none answered untouched)
  | later {start index slot stop : Nat} {path : List Nat} {value : Value} {parts others answered : Track}
    (behind : Awaits answer (start + 1 + parts.size) others (index :: path) slot stop answered) :
    Awaits answer start (begun (some value) parts others) ((index + 1) :: path) slot stop
      (begun (some value) parts answered)

variable {start slot stop : Nat} {path : List Nat} {track parts others answered : Track} {value answer : Value}
  {goesOn : Value → Bool} {nodes : List Node} {passed : List Slot}

@[simp] theorem length_slots (start : Nat) (track : Track) : (track.slots start).length = track.size := by
  induction track generalizing start with
  | untouched => rfl
  | begun value parts others inner behind =>
    simp only [slots, size, List.length_cons, List.length_append, inner, behind]
    omega

@[simp] theorem length_passing (passed : List Slot) (value : Value) (parts : Track) :
    (passing passed value parts).length = passed.length + 1 + parts.size := by
  simp only [passing, List.length_append, length_slots, size]
  omega

theorem Complete.find_ne (complete : track.Complete) (start slot : Nat) (path : List Nat) :
    track.find start path ≠ some (slot, none) := by
  fun_induction find start track path with
  | case1 start value parts others =>
    intro found
    have finished := complete.1
    cases found
    cases finished
  | case2 start _ parts others index path ih => exact ih complete.2.1
  | case3 start _ parts others index path ih => exact ih complete.2.2
  | case4 => simp

namespace Awaits

theorem size_eq (awaits : Awaits answer start track path slot stop answered) : answered.size = track.size := by
  induction awaits with
  | call => rfl
  | inside _ ih | later _ ih => simp only [size, ih]

theorem slots_eq (awaits : Awaits answer start track path slot stop answered) :
    ∃ place, slot = start + place ∧ place < track.size ∧
      (track.slots start).set place (some ⟨answer, stop⟩) = answered.slots start := by
  induction awaits with
  | call => exact ⟨0, rfl, by simp only [size]; omega, rfl⟩
  | @inside start index slot stop path parts answered inner ih =>
    obtain ⟨place, same, within, filled⟩ := ih
    refine ⟨place + 1, by omega, by simp only [size]; omega, ?_⟩
    rw [slots, slots, List.set_cons_succ, List.set_append_left _ _ (by simpa using within), filled]
    rfl
  | @later start index slot stop path value parts others answered behind ih =>
    obtain ⟨place, same, within, filled⟩ := ih
    refine ⟨parts.size + place + 1, by omega, by simp only [size]; omega, ?_⟩
    rw [slots, slots, List.set_cons_succ, List.set_append_right _ _ (by simp), length_slots, Nat.add_sub_cancel_left,
      filled]

theorem found (awaits : Awaits answer start track path slot stop answered) :
    track.find start path = some (slot, none) ∧ answered.find start path = some (slot, some answer) := by
  induction awaits with
  | call => exact ⟨rfl, rfl⟩
  | inside _ ih | later _ ih => exact ih

theorem find_around (awaits : Awaits answer start track path slot stop answered) {upper more : List Nat}
    (around : path = upper ++ more) (inside : more ≠ []) (outer : Nat) (value : Value) :
    answered.find start upper ≠ some (outer, some value) := by
  induction awaits generalizing upper with
  | call =>
    cases upper with
    | nil => exact fun found => nomatch found
    | cons => exact absurd (List.append_eq_nil_iff.1 (List.cons.inj around).2.symm).2 inside
  | inside _ ih =>
    match upper with
    | [] | (_ + 1) :: _ | [0] => exact fun found => nomatch found
    | 0 :: index :: rest => exact ih (List.cons.inj around).2
  | later _ ih =>
    match upper with
    | [] => exact fun found => nomatch found
    | [0] | 0 :: _ :: _ => cases (List.cons.inj around).1
    | (index + 1) :: rest =>
      obtain ⟨same, within⟩ := List.cons.inj around
      refine ih ?_
      rw [within, Nat.succ.inj same]
      rfl

theorem find_other (awaits : Awaits answer start track path slot stop answered) {other : List Nat}
    (apart : other ≠ path) : answered.find start other = track.find start other := by
  induction awaits generalizing other with
  | @call start parts complete =>
    match other with
    | [] | (_ + 1) :: _ | 0 :: _ :: _ => rfl
    | [0] => exact absurd rfl apart
  | inside _ ih =>
    match other with
    | [] | (_ + 1) :: _ | [0] => rfl
    | 0 :: index :: rest => exact ih fun same => apart (congrArg _ same)
  | later _ ih =>
    match other with
    | [] | [0] | 0 :: _ :: _ => rfl
    | (index + 1) :: rest =>
      refine ih fun same => apart ?_
      obtain ⟨rfl, rfl⟩ := List.cons.inj same
      rfl

theorem fits (awaits : Awaits answer start track path slot stop answered) (fits : track.Fits goesOn nodes) :
    answered.Fits goesOn nodes := by
  induction awaits generalizing goesOn nodes with
  | call complete =>
    cases nodes with
    | nil => exact fits
    | cons => exact ⟨complete, trivial⟩
  | inside _ ih =>
    cases nodes with
    | nil => exact fits
    | cons => exact ⟨ih fits.1, rfl⟩
  | later _ ih =>
    cases nodes with
    | nil => exact fits
    | cons => exact ⟨fits.1, ih fits.2⟩

end Awaits

theorem slot_of_take {replay opened : Replay} (taken : replay.take = (.fresh slot, opened)) : slot = replay.cursor := by
  unfold Replay.take at taken
  split at taken <;> cases taken <;> rfl

/-- An expression that was not finished takes its slot again, or a new one. -/
theorem Unfinished.take (unfinished : Unfinished track parts) (passed : List Slot) (resumed : Bool) :
    (Replay.behind passed (track.slots passed.length) resumed).take =
      (.fresh passed.length, .behind (passed ++ [none]) (parts.slots (passed ++ [none]).length) resumed) := by
  cases unfinished with
  | untouched => exact Replay.take_end passed resumed
  | left =>
    rw [slots, slots, List.append_nil, List.length_append]
    exact Replay.take_empty passed _ resumed

theorem take_finished (passed : List Slot) (value : Value) (parts others : Track) (resumed : Bool) :
    (Replay.behind passed ((begun (some value) parts others).slots passed.length) resumed).take =
      (.replayed value,
        .behind (passing passed value parts) (others.slots (passing passed value parts).length) resumed) := by
  have taken := Replay.take_filled passed (others.slots (passed.length + 1 + parts.size)) resumed value
    (parts.slots (passed.length + 1))
  rw [length_slots] at taken
  rw [length_passing]
  simpa only [slots, passing, Option.map_some, List.append_nil] using taken

theorem Unfinished.find_inside (unfinished : Unfinished track parts) (start index : Nat) (path : List Nat) :
    track.find start (0 :: index :: path) = parts.find (start + 1) (index :: path) := by
  cases unfinished <;> rfl

theorem Unfinished.find_later (unfinished : Unfinished track parts) (start index : Nat) (path : List Nat) :
    track.find start ((index + 1) :: path) = none := by
  cases unfinished <;> rfl

theorem Unfinished.size_le (unfinished : Unfinished track parts) : track.size ≤ 1 + parts.size := by
  cases unfinished with
  | untouched => exact Nat.zero_le _
  | left => exact Nat.le_refl _

theorem find_nil (start : Nat) (track : Track) : track.find start [] = none := by
  cases track <;> rfl

def Kept (start : Nat) (track grown : Track) : Prop :=
  ∀ path slot known, track.find start path = some (slot, known) →
    ∃ value, grown.find start path = some (slot, value) ∧ (known.isSome = true → value = known)

theorem kept_later {value : Option Value} {grown : Track} (kept : Kept (start + 1 + parts.size) others grown) :
    Kept start (begun value parts others) (begun value parts grown) := by
  intro path slot known found
  match path with
  | [] => cases found
  | [0] | 0 :: _ :: _ => exact ⟨known, found, fun _ => rfl⟩
  | (index + 1) :: path => exact kept _ _ _ found

theorem Unfinished.kept (unfinished : Unfinished track parts) {value : Option Value} {inner grown : Track}
    (kept : Kept (start + 1) parts inner) : Kept start track (begun value inner grown) := by
  intro path slot known found
  match path with
  | [] => cases (find_nil _ _).symm.trans found
  | [0] =>
    cases unfinished with
    | untouched => cases found
    | left =>
      cases found
      exact ⟨value, rfl, fun impossible => nomatch impossible⟩
  | 0 :: index :: path =>
    rw [unfinished.find_inside] at found
    exact kept _ _ _ found
  | (index + 1) :: path => cases (unfinished.find_later _ _ _).symm.trans found

theorem Kept.trans {first second third : Track} (start_ : Kept start first second) (rest : Kept start second third) :
    Kept start first third := by
  intro path slot known found
  obtain ⟨between, found, same⟩ := start_ _ _ _ found
  obtain ⟨value, found, same'⟩ := rest _ _ _ found
  refine ⟨value, found, fun finished => ?_⟩
  have first := same finished
  rw [← first] at finished
  exact (same' finished).trans first

theorem Awaits.kept (awaits : Awaits answer start track path slot stop answered) : Kept start track answered := by
  intro other place known found
  by_cases same : other = path
  · subst same
    cases awaits.found.1.symm.trans found
    exact ⟨some answer, awaits.found.2, fun impossible => nomatch impossible⟩
  · exact ⟨known, (awaits.find_other same).trans found, fun _ => rfl⟩

end Track

def World.facing (world : World σ) (passed : List Slot) (track : Track) (resumed : Bool) : Progress σ :=
  world.progress (.behind passed (track.slots passed.length) resumed)

end TabScript
