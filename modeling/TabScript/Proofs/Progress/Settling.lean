import TabScript.Proofs.Spelling.Takes

/-! Readers that do not run for ever.

The tokens may be any at all. A reader goes forward or not at all, and each call that is made without reading
a token is one of a few kinds, so that a budget in proportion to the tokens ahead is never used up. With such
a budget, what is read does not depend on it. -/

set_option autoImplicit false

namespace TabScript

theorem Token.symbol_of_ending {token : Token} (ending : token.kind = .endOfProgram) : token.symbol = "" := by
  simp [symbol, ending]

namespace Cursor

variable {cursor after : Cursor} {taken : List Token}

/-- Behind the tokens stands the end of the program. -/
def Ends (cursor : Cursor) : Prop := cursor.ending.kind = .endOfProgram

theorem Passes.ends (passes : cursor.Passes taken after) (ends : cursor.Ends) : after.Ends := by
  rw [Ends, passes.ending]
  exact ends

theorem Passes.length_eq (passes : cursor.Passes taken after) :
    cursor.upcoming.length = taken.length + after.upcoming.length := by
  rw [passes.upcoming, List.length_append]

theorem Ends.passes_advance (ends : cursor.Ends) (more : cursor.peek.kind ≠ .endOfProgram) :
    cursor.Passes [cursor.peek] cursor.advance ∧ 0 < cursor.upcoming.length := by
  obtain ⟨previous, upcoming, ending⟩ := cursor
  cases upcoming with
  | nil => exact absurd ends more
  | cons token rest => exact ⟨⟨rfl, rfl, rfl⟩, Nat.succ_pos _⟩

theorem passes_skipNewlines (cursor : Cursor) :
    cursor.Passes (cursor.upcoming.takeWhile (·.kind = .newline)) cursor.skipNewlines :=
  ⟨(List.takeWhile_append_dropWhile ..).symm, rfl, rfl⟩

end Cursor

namespace Parser

variable {α β : Type}

/-- Two readers with different budgets. The first one only goes forward, and it reads some token if it is
`strict`. If the budgets are `ample` for so many tokens ahead, both readers do the same, and neither is cut
short. -/
structure Settles (pre : Cursor → Prop) (ample : Prop) (room : Nat) (first second : Parser α)
    (strict : Prop) : Prop where
  forward {cursor after : Cursor} {value : α} : cursor.Ends → pre cursor →
    first cursor = .ok (value, after) → ∃ taken, cursor.Passes taken after ∧ (strict → taken ≠ [])
  same {cursor : Cursor} : cursor.Ends → pre cursor → ample → cursor.upcoming.length ≤ room →
    second cursor = first cursor
  ends {cursor : Cursor} {fault : Fault} : cursor.Ends → pre cursor → ample →
    cursor.upcoming.length ≤ room → first cursor = .error fault → fault.cause ≠ .endlessRule

abbrev Wherever : Cursor → Prop := fun _ => True

variable {pre : Cursor → Prop} {ample enough strict some_ : Prop} {room larger : Nat}

theorem Settles.of {first second : Parser α} (settles : Settles Wherever enough larger first second some_)
    (fewer : room ≤ larger) (suffices_ : ample → enough) (reads : strict → some_) :
    Settles pre ample room first second strict where
  forward ends _ read := by
    obtain ⟨taken, passes, more⟩ := settles.forward ends trivial read
    exact ⟨taken, passes, fun must => more (reads must)⟩
  same ends _ much fits := settles.same ends trivial (suffices_ much) (Nat.le_trans fits fewer)
  ends ends _ much fits := settles.ends ends trivial (suffices_ much) (Nat.le_trans fits fewer)

theorem Settles.bind {first second : Parser α} {next later : α → Parser β}
    (start : Settles pre ample room first second some_)
    (rest : ∀ value, Settles Wherever ample room (next value) (later value) strict) :
    Settles pre ample room (first >>= next) (second >>= later) strict where
  forward {cursor after value} ends ready read := by
    change (first cursor >>= fun pair => next pair.1 pair.2) = _ at read
    obtain ⟨⟨middle, between⟩, begins, read⟩ := except_bind_ok read
    obtain ⟨taken, passes, -⟩ := start.forward ends ready begins
    obtain ⟨further, passes', more⟩ := (rest middle).forward (passes.ends ends) trivial read
    refine ⟨taken ++ further, passes.trans passes', fun must => ?_⟩
    exact List.append_ne_nil_of_right_ne_nil _ (more must)
  same {cursor} ends ready much fits := by
    change (second cursor >>= fun pair => later pair.1 pair.2) =
      (first cursor >>= fun pair => next pair.1 pair.2)
    rw [start.same ends ready much fits]
    cases begins : first cursor with
    | error fault => rfl
    | ok pair =>
      obtain ⟨taken, passes, -⟩ := start.forward ends ready begins
      have length := passes.length_eq
      exact (rest pair.1).same (passes.ends ends) trivial much (by omega)
  ends {cursor fault} ends ready much fits failed := by
    change (first cursor >>= fun pair => next pair.1 pair.2) = _ at failed
    cases begins : first cursor with
    | error first =>
      rw [begins] at failed
      cases failed
      exact start.ends ends ready much fits begins
    | ok pair =>
      rw [begins] at failed
      obtain ⟨taken, passes, -⟩ := start.forward ends ready begins
      have length := passes.length_eq
      exact (rest pair.1).ends (passes.ends ends) trivial much (by omega) failed

/-- Behind a reader that reads some token there is one token less. -/
theorem Settles.bind_strict {first second : Parser α} {next later : α → Parser β}
    (start : Settles pre ample room first second True)
    (rest : ∀ value, Settles Wherever (ample ∧ 0 < room) (room - 1) (next value) (later value) False) :
    Settles pre ample room (first >>= next) (second >>= later) strict where
  forward {cursor after value} ends ready read := by
    change (first cursor >>= fun pair => next pair.1 pair.2) = _ at read
    obtain ⟨⟨middle, between⟩, begins, read⟩ := except_bind_ok read
    obtain ⟨taken, passes, more⟩ := start.forward ends ready begins
    obtain ⟨further, passes', -⟩ := (rest middle).forward (passes.ends ends) trivial read
    exact ⟨taken ++ further, passes.trans passes', fun _ =>
      List.append_ne_nil_of_left_ne_nil (more trivial) _⟩
  same {cursor} ends ready much fits := by
    change (second cursor >>= fun pair => later pair.1 pair.2) =
      (first cursor >>= fun pair => next pair.1 pair.2)
    rw [start.same ends ready much fits]
    cases begins : first cursor with
    | error fault => rfl
    | ok pair =>
      obtain ⟨taken, passes, more⟩ := start.forward ends ready begins
      -- a token has been read, so what is ahead of the second reader fits into one token less
      have length := passes.length_eq
      have some_ := List.length_pos_iff.2 (more trivial)
      exact (rest pair.1).same (passes.ends ends) trivial ⟨much, by omega⟩ (by omega)
  ends {cursor fault} ends ready much fits failed := by
    change (first cursor >>= fun pair => next pair.1 pair.2) = _ at failed
    cases begins : first cursor with
    | error first =>
      rw [begins] at failed
      cases failed
      exact start.ends ends ready much fits begins
    | ok pair =>
      rw [begins] at failed
      obtain ⟨taken, passes, more⟩ := start.forward ends ready begins
      have length := passes.length_eq
      have some_ := List.length_pos_iff.2 (more trivial)
      exact (rest pair.1).ends (passes.ends ends) trivial ⟨much, by omega⟩ (by omega) failed

theorem settles_pure (value : α) : Settles pre ample room (pure value) (pure value) False where
  forward {cursor _ _} _ _ read := by
    cases read
    exact ⟨[], cursor.passes_refl, False.elim⟩
  same _ _ _ _ := rfl
  ends _ _ _ _ failed := by cases failed

theorem settles_refused {reader : Parser α}
    (refuses : ∀ cursor, ∃ fault, reader cursor = .error fault ∧ fault.cause ≠ .endlessRule) :
    Settles pre ample room reader reader strict where
  forward {cursor _ _} _ _ read := by
    obtain ⟨fault, refused, -⟩ := refuses cursor
    cases refused.symm.trans read
  same _ _ _ _ := rfl
  ends {cursor _} _ _ _ _ failed := by
    obtain ⟨fault, refused, other⟩ := refuses cursor
    cases refused.symm.trans failed
    exact other

theorem unexpected_ne_endlessRule (cursor : Cursor) (expected : Option Expectation) :
    (cursor.unexpected expected).cause ≠ .endlessRule := by
  unfold Cursor.unexpected
  dsimp only
  split <;> simp

theorem settles_unexpected (expected : Option Expectation) :
    Settles pre ample room (unexpected expected : Parser α) (unexpected expected) strict :=
  settles_refused fun cursor => ⟨_, rfl, unexpected_ne_endlessRule cursor expected⟩

theorem settles_fail {fault : Fault} (other : fault.cause ≠ .endlessRule) :
    Settles pre ample room (fail fault : Parser α) (fail fault) strict :=
  settles_refused fun _ => ⟨fault, rfl, other⟩

/-- A reader without a budget is only called where the budget is not enough. -/
theorem settles_exhausted {other : Parser α} (scarce : ¬ample) :
    Settles pre ample room exhausted other strict where
  forward _ _ read := by cases read
  same _ _ much _ := absurd much scarce
  ends _ _ much _ _ := absurd much scarce

theorem Settles.look {look : Parser α} (seen : Cursor → α)
    (looks : ∀ cursor, look cursor = .ok (seen cursor, cursor)) {next later : α → Parser β}
    (rest : ∀ value, Settles (fun cursor => seen cursor = value) ample room (next value) (later value)
      strict) :
    Settles pre ample room (look >>= next) (look >>= later) strict := by
  have unfolds : ∀ (next : α → Parser β) (cursor : Cursor),
      (look >>= next) cursor = next (seen cursor) cursor := by
    intro next cursor
    change (look cursor >>= fun pair => next pair.1 pair.2) = _
    rw [looks]
    rfl
  constructor
  · intro cursor after value ends _ read
    rw [unfolds] at read
    exact (rest _).forward ends rfl read
  · intro cursor ends _ much fits
    rw [unfolds, unfolds]
    exact (rest _).same ends rfl much fits
  · intro cursor fault ends _ much fits failed
    rw [unfolds] at failed
    exact (rest _).ends ends rfl much fits failed

theorem Settles.peek {next later : Token → Parser β}
    (rest : ∀ token, Settles (fun cursor => cursor.peek = token) ample room (next token) (later token)
      strict) :
    Settles pre ample room (Parser.peek >>= next) (Parser.peek >>= later) strict :=
  Settles.look Cursor.peek (fun _ => rfl) rest

theorem settles_next (more : ∀ cursor, cursor.Ends → pre cursor → cursor.peek.kind ≠ .endOfProgram) :
    Settles pre ample room next next True where
  forward {cursor _ _} ends ready read := by
    cases read
    exact ⟨_, (ends.passes_advance (more cursor ends ready)).1, fun _ => List.cons_ne_nil _ _⟩
  same _ _ _ _ := rfl
  ends _ _ _ _ failed := by cases failed

theorem settles_advance : Settles pre ample room next next False where
  forward {cursor _ _} _ _ read := by
    cases read
    obtain ⟨previous, upcoming, ending⟩ := cursor
    cases upcoming with
    | nil => exact ⟨[], Cursor.passes_refl _, False.elim⟩
    | cons token rest => exact ⟨[token], ⟨rfl, rfl, rfl⟩, False.elim⟩
  same _ _ _ _ := rfl
  ends _ _ _ _ failed := by cases failed

theorem settles_skipNewlines : Settles pre ample room skipNewlines skipNewlines False where
  forward {cursor _ _} _ _ read := by
    cases read
    exact ⟨_, cursor.passes_skipNewlines, False.elim⟩
  same _ _ _ _ := rfl
  ends _ _ _ _ failed := by cases failed

theorem settles_token {kind : TokenKind} (more : kind ≠ .endOfProgram) :
    Settles pre ample room (token kind) (token kind) True := by
  refine Settles.peek fun found => ?_
  split
  · rename_i same
    refine settles_next fun cursor _ seen => ?_
    rw [seen, same]
    exact more
  · exact settles_unexpected _

theorem settles_anyToken (kind : TokenKind) : Settles pre ample room (token kind) (token kind) False := by
  refine Settles.peek fun found => ?_
  split
  · exact settles_advance
  · exact settles_unexpected _

theorem kind_of_is {token : Token} {kind : TokenKind} {text : String} (found : token.is kind text = true) :
    token.kind = kind :=
  (Token.is_iff.1 found).1

theorem settles_punctuator? (text : String) :
    Settles pre ample room (punctuator? text) (punctuator? text) False := by
  refine Settles.look (fun cursor => cursor.peek.is .punctuator text) (fun _ => rfl) fun found => ?_
  cases found with
  | true =>
    refine (settles_next fun cursor _ seen => ?_).bind fun token => settles_pure _
    rw [kind_of_is seen]
    decide
  | false => exact settles_pure _

theorem punctuator_apply (text : String) (cursor : Cursor) :
    punctuator text cursor =
      if cursor.peek.is .punctuator text then .ok (cursor.peek, cursor.advance)
      else .error (cursor.unexpected (some (.punctuator text))) := by
  have looks : atPunctuator text cursor = .ok (cursor.peek.is .punctuator text, cursor) := rfl
  cases found : cursor.peek.is .punctuator text <;>
  · rw [found] at looks
    simp only [punctuator, punctuator?, bind, StateT.bind, Except.bind, looks]
    rfl

theorem settles_punctuator (text : String) :
    Settles pre ample room (punctuator text) (punctuator text) True where
  forward {cursor _ _} ends _ read := by
    rw [punctuator_apply] at read
    split at read
    · rename_i found
      cases read
      have more : cursor.peek.kind ≠ .endOfProgram := by
        rw [kind_of_is found]
        decide
      exact ⟨_, (ends.passes_advance more).1, fun _ => List.cons_ne_nil _ _⟩
    · cases read
  same _ _ _ _ := rfl
  ends {cursor _} _ _ _ _ failed := by
    rw [punctuator_apply] at failed
    split at failed
    · cases failed
    · cases failed
      exact unexpected_ne_endlessRule cursor _

theorem settles_endOfLine : Settles pre ample room endOfLine endOfLine False := by
  refine Settles.peek fun token => ?_
  split
  · rename_i newline
    refine (settles_next fun cursor _ seen => ?_).bind fun _ => settles_pure _
    rw [seen, newline]
    decide
  · exact settles_pure _
  · exact settles_pure _
  · exact settles_unexpected _

end Parser

end TabScript
