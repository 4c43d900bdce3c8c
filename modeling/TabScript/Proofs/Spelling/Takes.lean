import TabScript.Grammar.Statement
import TabScript.Proofs.Spelling.Lexed

/-! What a reader takes.

A reader takes a first part of the tokens ahead, and nothing else happens to the cursor. Whether the token
read last has content decides whether the end of a line comes next. -/

set_option autoImplicit false

namespace TabScript

namespace Cursor

variable {cursor after : Cursor}

def inside (cursor : Cursor) : Bool :=
  (cursor.previous.map fun token => token.kind.isContent).getD false

structure Sound (cursor : Cursor) : Prop where
  lexed : ∀ token ∈ cursor.upcoming, token.Lexed ∧ token.kind ≠ .endOfProgram
  lined : Token.Lined cursor.inside (cursor.upcoming ++ [cursor.ending])
  ending : cursor.ending.kind = .endOfProgram

structure Passes (cursor : Cursor) (taken : List Token) (after : Cursor) : Prop where
  upcoming : cursor.upcoming = taken ++ after.upcoming
  previous : after.previous = taken.getLast?.or cursor.previous
  ending : after.ending = cursor.ending

theorem passes_refl (cursor : Cursor) : cursor.Passes [] cursor := ⟨rfl, rfl, rfl⟩

theorem Passes.trans {between : Cursor} {taken further : List Token} (first : cursor.Passes taken between)
    (second : between.Passes further after) : cursor.Passes (taken ++ further) after := by
  refine ⟨?_, ?_, second.ending.trans first.ending⟩
  · rw [first.upcoming, second.upcoming, List.append_assoc]
  · rw [second.previous, first.previous, List.getLast?_append, Option.or_assoc]

theorem Sound.next (sound : cursor.Sound) (more : cursor.peek.kind ≠ .endOfProgram) :
    cursor.peek.Lexed ∧ cursor.Passes [cursor.peek] cursor.advance ∧ cursor.advance.Sound ∧
      cursor.advance.inside = cursor.peek.kind.isContent := by
  obtain ⟨previous, upcoming, ending⟩ := cursor
  cases upcoming with
  | nil => exact absurd sound.ending more
  | cons token rest =>
    refine ⟨(sound.lexed token List.mem_cons_self).1, ⟨rfl, rfl, rfl⟩, ⟨?_, ?_, sound.ending⟩, rfl⟩
    · exact fun other member => sound.lexed other (List.mem_cons_of_mem _ member)
    · exact sound.lined.2

theorem Sound.peek_inside (sound : cursor.Sound) (inside : cursor.inside = true) :
    cursor.peek.kind = .newline ∨ cursor.peek.kind.isContent = true := by
  have lined := sound.lined
  obtain ⟨previous, upcoming, ending⟩ := cursor
  rw [inside] at lined
  cases upcoming with
  | nil => exact lined.1
  | cons token rest => exact lined.1

theorem Sound.peek_outside (sound : cursor.Sound) (outside : cursor.inside = false) :
    cursor.peek.kind ≠ .newline := by
  have lined := sound.lined
  obtain ⟨previous, upcoming, ending⟩ := cursor
  rw [outside] at lined
  cases upcoming with
  | nil => exact lined.1
  | cons token rest => exact lined.1

theorem Sound.skipNewlines (sound : cursor.Sound) (outside : cursor.inside = false) :
    cursor.skipNewlines = cursor := by
  have other := sound.peek_outside outside
  obtain ⟨previous, upcoming, ending⟩ := cursor
  cases upcoming with
  | nil => rfl
  | cons token rest =>
    have kind : token.kind ≠ .newline := other
    simp [Cursor.skipNewlines, kind]

end Cursor

namespace Parser

open Token (layout)

variable {α β : Type}

/-- From a cursor that is as required, the reader takes tokens, and they, its value and the cursor behind
them are as said. -/
def Takes (pre : Cursor → Prop) (parser : Parser α) (post : α → List Token → Cursor → Prop) : Prop :=
  ∀ cursor value after, cursor.Sound → pre cursor → parser cursor = .ok (value, after) →
    after.Sound ∧ ∃ taken, cursor.Passes taken after ∧ post value taken after

abbrev Inside : Cursor → Prop := fun cursor => cursor.inside = true

abbrev Outside : Cursor → Prop := fun cursor => cursor.inside = false

variable {pre : Cursor → Prop} {post : α → List Token → Cursor → Prop}

theorem takes_pure {value : α} (holds : ∀ cursor, pre cursor → post value [] cursor) :
    Takes pre (pure value) post := by
  intro cursor result after sound ready read
  cases read
  exact ⟨sound, [], cursor.passes_refl, holds _ ready⟩

theorem Takes.bind {parser : Parser α} {next : α → Parser β} {mid : α → List Token → Cursor → Prop}
    {post : β → List Token → Cursor → Prop} (first : Takes pre parser mid)
    (others : ∀ value taken, Takes (mid value taken) (next value)
      fun result further => post result (taken ++ further)) : Takes pre (parser >>= next) post := by
  intro cursor result after sound ready read
  change (parser cursor >>= fun pair => next pair.1 pair.2) = _ at read
  obtain ⟨⟨value, between⟩, begins, ends⟩ := except_bind_ok read
  obtain ⟨sound', taken, passes, holds⟩ := first cursor value between sound ready begins
  obtain ⟨sound'', further, passes', holds'⟩ := others value taken between result after sound' holds ends
  exact ⟨sound'', taken ++ further, passes.trans passes', holds'⟩

theorem Takes.mono {parser : Parser α} {fine : α → List Token → Cursor → Prop}
    (takes : Takes pre parser post)
    (weaker : ∀ value taken cursor, post value taken cursor → fine value taken cursor) :
    Takes pre parser fine := by
  intro cursor value after sound ready read
  obtain ⟨sound', taken, passes, holds⟩ := takes cursor value after sound ready read
  exact ⟨sound', taken, passes, weaker value taken after holds⟩

theorem Takes.weaken {parser : Parser α} {less : Cursor → Prop} (takes : Takes less parser post)
    (stronger : ∀ cursor, pre cursor → less cursor) : Takes pre parser post :=
  fun cursor value after sound ready read =>
    takes cursor value after sound (stronger cursor ready) read

theorem Takes.given {parser : Parser α} {known : Prop} (takes : known → Takes pre parser post) :
    Takes (fun cursor => known ∧ pre cursor) parser post :=
  fun cursor value after sound ready read => takes ready.1 cursor value after sound ready.2 read

theorem takes_error {parser : Parser α} (fails : ∀ cursor, ∃ fault, parser cursor = .error fault) :
    Takes pre parser post := by
  intro cursor value after _ _ read
  obtain ⟨fault, failed⟩ := fails cursor
  cases failed.symm.trans read

theorem takes_exhausted : Takes pre (exhausted : Parser α) post := takes_error fun _ => ⟨_, rfl⟩

theorem takes_unexpected {expected : Option Expectation} :
    Takes pre (unexpected expected : Parser α) post := takes_error fun _ => ⟨_, rfl⟩

theorem takes_fail {fault : Fault} : Takes pre (fail fault : Parser α) post :=
  takes_error fun _ => ⟨_, rfl⟩

theorem takes_refused {expected : Option Expectation} {next : β → Parser α} :
    Takes pre (unexpected expected >>= next) post := takes_error fun _ => ⟨_, rfl⟩

theorem takes_failed {fault : Fault} {next : β → Parser α} : Takes pre (fail fault >>= next) post :=
  takes_error fun _ => ⟨_, rfl⟩

theorem takes_look {look : Parser α} {seen : Cursor → α} (looks : ∀ cursor, look cursor = .ok (seen cursor, cursor)) :
    Takes pre look fun value taken cursor => taken = [] ∧ value = seen cursor ∧ pre cursor := by
  intro cursor value after sound ready read
  rw [looks] at read
  cases read
  exact ⟨sound, [], cursor.passes_refl, rfl, rfl, ready⟩

theorem takes_peek :
    Takes pre peek fun token taken cursor => taken = [] ∧ token = cursor.peek ∧ pre cursor :=
  takes_look fun _ => rfl

theorem takes_atPunctuator {text : String} : Takes pre (atPunctuator text) fun found taken cursor =>
    taken = [] ∧ found = cursor.peek.is .punctuator text ∧ pre cursor :=
  takes_look fun _ => rfl

theorem takes_atKeyword {text : String} : Takes pre (atKeyword text) fun found taken cursor =>
    taken = [] ∧ found = cursor.peek.is .keyword text ∧ pre cursor :=
  takes_look fun _ => rfl

theorem takes_next {token : Token} (more : token.kind ≠ .endOfProgram) :
    Takes (fun cursor => token = cursor.peek ∧ pre cursor) next fun found taken cursor =>
      (found = token ∧ taken = [token] ∧ token.Lexed) ∧ cursor.inside = token.kind.isContent := by
  rintro cursor value after sound ⟨rfl, -⟩ read
  cases read
  obtain ⟨lexed, passes, sound', inside⟩ := sound.next more
  exact ⟨sound', _, passes, ⟨rfl, rfl, lexed⟩, inside⟩

theorem takes_is {kind : TokenKind} {text : String} (content : kind.isContent = true) :
    Takes (fun cursor => true = cursor.peek.is kind text ∧ pre cursor) next fun token taken cursor =>
      (taken = [token] ∧ token.is kind text = true) ∧ Inside cursor := by
  rintro cursor value after sound ⟨found, -⟩ read
  cases read
  obtain ⟨same, -⟩ := Token.is_iff.1 found.symm
  have more : cursor.peek.kind ≠ .endOfProgram := by
    intro ending
    rw [← same, ending] at content
    cases content
  obtain ⟨-, passes, sound', inside⟩ := sound.next more
  refine ⟨sound', _, passes, ⟨rfl, found.symm⟩, ?_⟩
  rw [Inside, inside, same, content]

theorem takes_punctuator? {text : String} : Takes pre (punctuator? text) fun found taken cursor =>
    match found with
    | some token => (taken = [token] ∧ token.is .punctuator text = true) ∧ Inside cursor
    | none => taken = [] ∧ cursor.peek.is .punctuator text = false ∧ pre cursor := by
  refine takes_atPunctuator.bind fun found taken => .given ?_
  rintro rfl
  cases found with
  | true =>
    refine (takes_is rfl).bind fun token taken => .given fun known => ?_
    refine takes_pure fun cursor inside => ⟨?_, inside⟩
    simpa using known
  | false => exact takes_pure fun cursor ready => ⟨rfl, ready.1.symm, ready.2⟩

theorem takes_punctuator {text : String} : Takes pre (punctuator text) fun token taken cursor =>
    (taken = [token] ∧ token.is .punctuator text = true) ∧ Inside cursor := by
  refine takes_punctuator?.bind fun found taken => ?_
  cases found with
  | some token =>
    refine .given fun known => takes_pure fun cursor inside => ⟨?_, inside⟩
    simpa using known
  | none => exact takes_unexpected

theorem takes_token {kind : TokenKind} (more : kind ≠ .endOfProgram) :
    Takes pre (token kind) fun token taken cursor =>
      (taken = [token] ∧ token.kind = kind ∧ token.Lexed) ∧ cursor.inside = kind.isContent := by
  refine takes_peek.bind fun found taken => .given ?_
  rintro rfl
  split
  · rename_i same
    refine (takes_next (same ▸ more)).mono ?_
    rintro value taken cursor ⟨⟨rfl, rfl, lexed⟩, inside⟩
    exact ⟨⟨rfl, same, lexed⟩, same ▸ inside⟩
  · exact takes_unexpected

/-- Only ends of lines are skipped, and where a line has just ended there is none. -/
theorem takes_skipNewlines : Takes Outside skipNewlines fun _ taken cursor => taken = [] ∧ Outside cursor := by
  intro cursor value after sound outside read
  cases read
  rw [sound.skipNewlines outside]
  exact ⟨sound, [], cursor.passes_refl, rfl, outside⟩

theorem plain_layout {token : Token} (lexed : token.Lexed) (kind : token.kind.isContent = false) :
    token.plain = layout token.kind := by
  obtain ⟨kind', value, span⟩ := token
  cases kind' with
  | newline | indent | dedent | endOfProgram =>
    cases value with
    | none => rfl
    | some literal => cases literal <;> exact lexed.elim
  | _ => cases kind

theorem takes_never {parser : Parser α} (never : ∀ cursor, cursor.Sound → ¬pre cursor) :
    Takes pre parser post := by
  intro cursor value after sound ready
  exact absurd ready (never cursor sound)

theorem takes_endOfLine : Takes Inside endOfLine fun _ taken cursor =>
    (∃ token, taken = [token] ∧ token.kind = .newline ∧ token.Lexed) ∧ Outside cursor := by
  -- neither the end of a block nor that of the program stands behind a token with content
  have behind : ∀ token : Token, token.kind ≠ .newline → token.kind.isContent = false →
      ∀ cursor : Cursor, cursor.Sound → ¬(token = cursor.peek ∧ Inside cursor) := by
    rintro token other layout cursor sound ⟨rfl, inside⟩
    rcases sound.peek_inside inside with newline | content
    · exact other newline
    · rw [layout] at content
      cases content
  rw [endOfLine]
  refine takes_peek.bind fun token taken => .given ?_
  rintro rfl
  split
  · rename_i newline
    refine (takes_next (by simp [newline])).bind fun found taken => .given ?_
    rintro ⟨rfl, rfl, lexed⟩
    rw [newline]
    exact takes_pure fun _ outside => ⟨⟨found, rfl, newline, lexed⟩, outside⟩
  · rename_i ending
    exact takes_never (behind token (by simp [ending]) (by rw [ending]; rfl))
  · rename_i dedent
    exact takes_never (behind token (by simp [dedent]) (by rw [dedent]; rfl))
  · exact takes_unexpected

end Parser

end TabScript
