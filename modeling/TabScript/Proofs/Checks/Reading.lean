import TabScript.Grammar.Statement
import TabScript.Proofs.Failable
import TabScript.Proofs.Layout.Logical

/-! What a reader of tokens can come to.

Behind every token that opens a block stands a token with content, since only a row with content opens a
block. The readers keep this of the tokens ahead. -/

set_option autoImplicit false

namespace TabScript

def Token.Filled : List Token → Prop
  | [] => True
  | token :: rest =>
    (token.kind = .indent → ∃ next ∈ rest.head?, next.kind.isContent = true) ∧ Token.Filled rest

structure Cursor.Tidy (cursor : Cursor) : Prop where
  opens : Token.Filled cursor.upcoming
  ending : cursor.ending.kind = .endOfProgram

namespace Cursor.Tidy

variable {cursor : Cursor}

theorem advance (tidy : cursor.Tidy) : cursor.advance.Tidy := by
  obtain ⟨previous, upcoming, ending⟩ := cursor
  cases upcoming with
  | nil => exact tidy
  | cons token rest => exact ⟨tidy.opens.2, tidy.ending⟩

theorem filled_dropWhile {test : Token → Bool} {tokens : List Token} (opens : Token.Filled tokens) :
    Token.Filled (tokens.dropWhile test) := by
  induction tokens with
  | nil => exact opens
  | cons token rest ih =>
    rw [List.dropWhile_cons]
    split
    · exact ih opens.2
    · exact opens

theorem skipNewlines (tidy : cursor.Tidy) : cursor.skipNewlines.Tidy :=
  ⟨filled_dropWhile tidy.opens, tidy.ending⟩

theorem skipNewlines_of_content (tidy : cursor.Tidy) (content : cursor.peek.kind.isContent = true) :
    cursor.skipNewlines.peek = cursor.peek := by
  obtain ⟨previous, upcoming, ending⟩ := cursor
  cases upcoming with
  | nil => rfl
  | cons token rest =>
    have other : token.kind ≠ .newline := by
      intro newline
      rw [show Cursor.peek ⟨previous, token :: rest, ending⟩ = token from rfl, newline] at content
      cases content
    simp [Cursor.skipNewlines, Cursor.peek, other]

theorem opened (tidy : cursor.Tidy) (indent : cursor.peek.kind = .indent) :
    cursor.advance.peek.kind.isContent = true := by
  obtain ⟨previous, upcoming, ending⟩ := cursor
  obtain ⟨opens, last⟩ := tidy
  cases upcoming with
  | nil =>
    have same : ending.kind = .indent := indent
    rw [show ending.kind = .endOfProgram from last] at same
    cases same
  | cons token rest =>
    obtain ⟨next, head, content⟩ := opens.1 indent
    cases rest with
    | nil => cases head
    | cons other rest =>
      cases head
      exact content

end Cursor.Tidy

namespace Parser

variable {α β : Type}

def Yields (pre : Cursor → Prop) (parser : Parser α) (post : α → Cursor → Prop) : Prop :=
  ∀ cursor value after, cursor.Tidy → pre cursor → parser cursor = .ok (value, after) →
    after.Tidy ∧ post value after

abbrev Anywhere : Cursor → Prop := fun _ => True

variable {pre : Cursor → Prop} {post : α → Cursor → Prop}

theorem yields_pure {value : α} (holds : ∀ cursor, pre cursor → post value cursor) :
    Yields pre (pure value) post := by
  intro cursor result after tidy ready read
  cases read
  exact ⟨tidy, holds _ ready⟩

theorem Yields.bind {parser : Parser α} {next : α → Parser β} {mid : α → Cursor → Prop}
    {post : β → Cursor → Prop} (first : Yields pre parser mid)
    (others : ∀ value, Yields (mid value) (next value) post) : Yields pre (parser >>= next) post := by
  intro cursor result after tidy ready read
  change (parser cursor >>= fun pair => next pair.1 pair.2) = _ at read
  obtain ⟨⟨value, between⟩, begins, ends⟩ := except_bind_ok read
  obtain ⟨tidy', holds⟩ := first cursor value between tidy ready begins
  exact others value between result after tidy' holds ends

theorem Yields.mono {parser : Parser α} {fine : α → Cursor → Prop} (yields : Yields pre parser post)
    (weaker : ∀ value cursor, post value cursor → fine value cursor) : Yields pre parser fine := by
  intro cursor value after tidy ready read
  obtain ⟨tidy', holds⟩ := yields cursor value after tidy ready read
  exact ⟨tidy', weaker value after holds⟩

theorem Yields.weaken {parser : Parser α} {less : Cursor → Prop} (yields : Yields less parser post)
    (stronger : ∀ cursor, pre cursor → less cursor) : Yields pre parser post :=
  fun cursor value after tidy ready read => yields cursor value after tidy (stronger cursor ready) read

theorem Yields.strip {parser : Parser α} (yields : Yields Anywhere parser post) :
    Yields pre parser post :=
  yields.weaken fun _ _ => trivial

theorem Yields.knowing {parser : Parser α} {P : Prop} (follows : ∀ cursor, pre cursor → P)
    (yields : P → Yields pre parser post) : Yields pre parser post :=
  fun cursor value after tidy ready read =>
    yields (follows cursor ready) cursor value after tidy ready read

theorem yields_error {parser : Parser α} (fails : ∀ cursor, ∃ fault, parser cursor = .error fault) :
    Yields pre parser post := by
  intro cursor value after _ _ read
  obtain ⟨fault, failed⟩ := fails cursor
  cases failed.symm.trans read

theorem yields_exhausted : Yields pre (exhausted : Parser α) post :=
  yields_error fun _ => ⟨_, rfl⟩

theorem yields_unexpected {expected : Option Expectation} :
    Yields pre (unexpected expected : Parser α) post :=
  yields_error fun _ => ⟨_, rfl⟩

theorem yields_fail {fault : Fault} : Yields pre (fail fault : Parser α) post :=
  yields_error fun _ => ⟨_, rfl⟩

theorem yields_refused {expected : Option Expectation} {next : β → Parser α} :
    Yields pre (unexpected expected >>= next) post :=
  yields_error fun _ => ⟨_, rfl⟩

theorem yields_failed {fault : Fault} {next : β → Parser α} : Yields pre (fail fault >>= next) post :=
  yields_error fun _ => ⟨_, rfl⟩

theorem yields_peek : Yields pre peek fun token cursor => token = cursor.peek ∧ pre cursor := by
  intro cursor value after tidy ready read
  cases read
  exact ⟨tidy, rfl, ready⟩

theorem yields_next : Yields pre next fun _ _ => True := by
  intro cursor value after tidy _ read
  cases read
  exact ⟨tidy.advance, trivial⟩

theorem yields_skipNewlines : Yields pre skipNewlines fun _ _ => True := by
  intro cursor value after tidy _ read
  cases read
  exact ⟨tidy.skipNewlines, trivial⟩

theorem yields_atPunctuator {text : String} : Yields pre (atPunctuator text) fun _ => pre := by
  intro cursor value after tidy ready read
  cases read
  exact ⟨tidy, ready⟩

theorem yields_atKeyword {text : String} : Yields pre (atKeyword text) fun _ => pre := by
  intro cursor value after tidy ready read
  cases read
  exact ⟨tidy, ready⟩

theorem yields_punctuator? {text : String} : Yields pre (punctuator? text) fun _ _ => True := by
  refine yields_atPunctuator.bind fun found => ?_
  split
  · exact yields_next.bind fun _ => yields_pure fun _ _ => trivial
  · exact yields_pure fun _ _ => trivial

theorem yields_punctuator {text : String} : Yields pre (punctuator text) fun _ _ => True := by
  refine yields_punctuator?.bind fun found => ?_
  split
  · exact yields_pure fun _ _ => trivial
  · exact yields_unexpected

theorem yields_token {kind : TokenKind} : Yields pre (token kind) fun _ _ => True := by
  refine yields_peek.bind fun found => ?_
  split
  · exact yields_next
  · exact yields_unexpected

theorem yields_indent : Yields pre (token .indent) fun _ cursor => cursor.peek.kind.isContent = true := by
  intro cursor value after tidy _ read
  change (if cursor.peek.kind = .indent then next else unexpected _) cursor = _ at read
  split at read
  · rename_i indent
    cases read
    exact ⟨tidy.advance, tidy.opened indent⟩
  · cases read

theorem yields_skipNewlines_content : Yields (fun cursor => cursor.peek.kind.isContent = true)
    skipNewlines fun _ cursor => cursor.peek.kind.isContent = true := by
  intro cursor value after tidy ready read
  cases read
  refine ⟨tidy.skipNewlines, ?_⟩
  rw [← tidy.skipNewlines_of_content ready] at ready
  exact ready

theorem yields_endOfLine : Yields pre endOfLine fun _ _ => True := by
  refine yields_peek.bind fun found => ?_
  split
  · exact yields_next.bind fun _ => yields_pure fun _ _ => trivial
  · exact yields_pure fun _ _ => trivial
  · exact yields_pure fun _ _ => trivial
  · exact yields_unexpected

end Parser

end TabScript
