import TabScript.Proofs.Pointing.Tokens
import TabScript.Proofs.Spelling.Takes

/-! What a reader of tokens refuses.

As long as a line is not read to its end, the next token stands in the text, and the reader can refuse it
there. Where a block is to begin it can meet the end of another one, and if the text has ended with a line
feed, that stands nowhere: this is the only fault that points behind the last line. -/

set_option autoImplicit false

namespace TabScript

/-- A line that needs a block is the last one of a text, inside a block that the end of the text closes. What
is refused is that this block is closed, at the end of the text, which is the beginning of a line that is not
there. -/
structure Fault.Lost (source : List Char) (fault : Fault) : Prop where
  cause : ∃ closing previous, closing.kind = .dedent ∧
    fault.cause = .unexpectedToken closing (some (.token .indent)) previous
  place : fault.span = .point (.behind source)
  ended : source.getLast? = some '\n'

def Fault.Read (source : List Char) (fault : Fault) : Prop :=
  fault.Sited source ∨ fault.Lost source

/-- So many blocks are open in front of the tokens, and none is open behind them. -/
def Token.Nested : Nat → List Token → Prop
  | depth, [] => depth = 0
  | depth, token :: rest =>
    match token.kind with
    | .indent => Token.Nested (depth + 1) rest
    | .dedent => ∃ outer, depth = outer + 1 ∧ Token.Nested outer rest
    | _ => Token.Nested depth rest

/-- If at the end as many blocks are closed as are opened, and never more on the way, the tokens are nested. -/
theorem Token.nested_of_level {depth : Nat} {tokens : List Token}
    (balanced : (depth : Int) + level tokens = 0)
    (bounded : ∀ part, part <+: tokens → 0 ≤ (depth : Int) + level part) : Nested depth tokens := by
  induction tokens generalizing depth with
  | nil =>
    have same : (depth : Int) + 0 = 0 := balanced
    exact Int.ofNat_eq_zero.1 (by omega)
  | cons token rest ih =>
    have further : ∀ part, level (token :: part) = level [token] + level part :=
      fun part => level_append [token] part
    -- the rest is nested as deep as the first token leads
    have behind : ∀ inner : Nat, (inner : Int) = depth + level [token] → Nested inner rest := by
      intro inner same
      refine ih ?_ fun part begins => ?_
      · rw [further] at balanced
        omega
      · have above := bounded (token :: part) ((List.prefix_cons_inj token).2 begins)
        rw [further] at above
        omega
    have first := bounded [token] ⟨rest, rfl⟩
    unfold Nested
    split
    · rename_i kind
      have step : level [token] = 1 := by simp [level, kind]
      exact behind _ (by omega)
    · rename_i kind
      have step : level [token] = -1 := by simp [level, kind]
      exact ⟨depth - 1, by omega, behind _ (by omega)⟩
    · rename_i notIndent notDedent
      have noIndent : ¬token.kind = .indent := notIndent
      have noDedent : ¬token.kind = .dedent := notDedent
      have step : level [token] = 0 := by simp [level, noIndent, noDedent]
      exact behind _ (by omega)

namespace Cursor

variable {source : List Char} {depth room larger : Nat} {cursor : Cursor}

/-- The tokens ahead stand in the text, with so many blocks open in front of them, and there is room for that
many at most. -/
structure Leads (source : List Char) (depth room : Nat) (cursor : Cursor) : Prop where
  sound : cursor.Sound
  placed : ∀ token ∈ cursor.upcoming, token.Placed source
  nested : Token.Nested depth cursor.upcoming
  fits : cursor.upcoming.length ≤ room

def Going (cursor : Cursor) : Prop :=
  cursor.peek.kind ≠ .dedent ∧ cursor.peek.kind ≠ .endOfProgram

structure Inner (source : List Char) (depth room : Nat) (cursor : Cursor) : Prop
    extends Leads source depth room cursor where
  going : cursor.Going

theorem Leads.mono (leads : cursor.Leads source depth room) (grows : room ≤ larger) :
    cursor.Leads source depth larger :=
  ⟨leads.sound, leads.placed, leads.nested, Nat.le_trans leads.fits grows⟩

theorem Inner.mono (inner : cursor.Inner source depth room) (grows : room ≤ larger) :
    cursor.Inner source depth larger :=
  ⟨inner.toLeads.mono grows, inner.going⟩

theorem going_of_content (content : cursor.peek.kind.isContent = true) : cursor.Going := by
  constructor <;> intro kind <;> rw [kind] at content <;> cases content

/-- What is next and does not close anything stands on a line of the text. -/
theorem Leads.points_peek (leads : cursor.Leads source depth room) (going : cursor.Going) :
    cursor.peek.span.PointsInto source := by
  obtain ⟨previous, upcoming, ending⟩ := cursor
  cases upcoming with
  | nil => exact absurd leads.sound.ending going.2
  | cons token rest =>
    rcases leads.placed token List.mem_cons_self with points | ⟨closing | closing, -⟩
    · exact points
    · exact absurd closing going.1
    · exact absurd closing going.2

theorem Leads.sited_unexpected (leads : cursor.Leads source depth room) (going : cursor.Going)
    (expected : Option Expectation) : (cursor.unexpected expected).Sited source := by
  rw [Cursor.unexpected, if_neg going.2]
  exact ⟨rfl, leads.points_peek going⟩

/-- The next token is read. How many blocks are open behind it depends on its kind. -/
theorem Leads.advance (leads : cursor.Leads source depth room) (going : cursor.peek.kind ≠ .endOfProgram)
    (later : Nat) (nested : ∀ rest, Token.Nested depth (cursor.peek :: rest) → Token.Nested later rest) :
    0 < room ∧ cursor.advance.Leads source later (room - 1) := by
  obtain ⟨-, -, sound, -⟩ := leads.sound.next going
  obtain ⟨previous, upcoming, ending⟩ := cursor
  cases upcoming with
  | nil => exact absurd leads.sound.ending going
  | cons token rest =>
    have fits : rest.length + 1 ≤ room := leads.fits
    refine ⟨by omega, sound, fun other inside => ?_, nested rest leads.nested, Nat.le_sub_one_of_lt fits⟩
    exact leads.placed other (List.mem_cons_of_mem _ inside)

theorem Leads.advance_content (leads : cursor.Leads source depth room)
    (content : cursor.peek.kind.isContent = true) :
    0 < room ∧ cursor.advance.Inner source depth (room - 1) := by
  have going := going_of_content content
  obtain ⟨-, -, -, inside⟩ := leads.sound.next going.2
  obtain ⟨some_, onward⟩ := leads.advance going.2 depth fun rest nested => by
    unfold Token.Nested at nested
    split at nested
    · rename_i kind
      rw [kind] at content
      cases content
    · rename_i kind
      rw [kind] at content
      cases content
    · exact nested
  refine ⟨some_, onward, ?_⟩
  -- a line is open behind the token, and only the end of the line closes it
  rcases onward.sound.peek_inside (inside.trans content) with newline | content
  · constructor <;> simp [newline]
  · exact going_of_content content

theorem Leads.advance_newline (leads : cursor.Leads source depth room)
    (newline : cursor.peek.kind = .newline) : 0 < room ∧ cursor.advance.Leads source depth (room - 1) :=
  leads.advance (by simp [newline]) depth fun rest nested => by
    unfold Token.Nested at nested
    simpa only [newline] using nested

theorem skipNewlines_other (other : cursor.peek.kind ≠ .newline) : cursor.skipNewlines = cursor := by
  obtain ⟨previous, upcoming, ending⟩ := cursor
  cases upcoming with
  | nil => rfl
  | cons token rest =>
    have kind : token.kind ≠ .newline := other
    simp [Cursor.skipNewlines, kind]

theorem skipNewlines_advance (newline : cursor.peek.kind = .newline) :
    cursor.skipNewlines = cursor.advance.skipNewlines := by
  obtain ⟨previous, upcoming, ending⟩ := cursor
  cases upcoming with
  | nil => rfl
  | cons token rest =>
    have kind : token.kind = .newline := newline
    cases last : (rest.takeWhile (·.kind = .newline)).getLast? <;>
      simp [Cursor.skipNewlines, Cursor.advance, kind, List.getLast?_cons, last]

/-- No line is without content, so there is at most one end of a line to be skipped. -/
theorem Leads.skipNewlines (leads : cursor.Leads source depth room) :
    cursor.skipNewlines.Leads source depth room := by
  by_cases newline : cursor.peek.kind = .newline
  · obtain ⟨-, onward⟩ := leads.advance_newline newline
    obtain ⟨-, -, -, inside⟩ := leads.sound.next (by simp [newline])
    have outside : cursor.advance.inside = false := inside.trans (by rw [newline]; rfl)
    rw [skipNewlines_advance newline, onward.sound.skipNewlines outside]
    exact onward.mono (Nat.sub_le _ _)
  · rw [skipNewlines_other newline]
    exact leads

/-- Where a block is to begin, behind a token that stands in the text, the next token can be refused. It may be
the end of another block, at the end of the text. -/
theorem Leads.read_unexpected (leads : cursor.Leads source depth room) {last : Token}
    (read : last ∈ cursor.previous) (points : last.span.PointsInto source) :
    (cursor.unexpected (some (.token .indent))).Read source := by
  unfold Cursor.unexpected
  dsimp only
  split
  · refine .inl ⟨rfl, ?_⟩
    rw [Option.mem_def.1 read]
    exact points
  rename_i going
  obtain ⟨previous, upcoming, ending⟩ := cursor
  cases upcoming with
  | nil => exact absurd leads.sound.ending going
  | cons token rest =>
    rcases leads.placed token List.mem_cons_self with here | ⟨closing | closing, place⟩
    · exact .inl ⟨rfl, here⟩
    · -- the token stands at the end of the text, which is on its last line unless that ends with a line feed
      have some_ : source ≠ [] := by
        rintro rfl
        exact absurd (Nat.le_trans points.counted points.within) (by decide)
      by_cases feed : source.getLast some_ = '\n'
      · refine .inr ⟨⟨token, previous, closing, rfl⟩, place, ?_⟩
        rw [List.getLast?_eq_some_getLast some_, feed]
      · have within := Source.line_end_le (List.getLast?_eq_some_getLast some_) feed
        refine .inl ⟨rfl, ?_⟩
        change token.span.PointsInto source
        rw [place]
        exact Span.pointsInto_point within
    · exact absurd closing going

end Cursor

namespace Parser

variable {α β : Type} {source : List Char} {depth room : Nat}

/-- From a cursor that is as required, the reader comes to a value and a cursor that are as said, or finds a
fault that may be. -/
def Meets (source : List Char) (pre : Cursor → Prop) (parser : Parser α) (post : α → Cursor → Prop) :
    Prop :=
  ∀ cursor, pre cursor →
    match parser cursor with
    | .ok (value, after) => post value after
    | .error fault => fault.Read source

variable {pre : Cursor → Prop} {post : α → Cursor → Prop}

theorem meets_pure {value : α} (holds : ∀ cursor, pre cursor → post value cursor) :
    Meets source pre (pure value) post := holds

theorem Meets.bind {parser : Parser α} {next : α → Parser β} {mid : α → Cursor → Prop}
    {post : β → Cursor → Prop} (first : Meets source pre parser mid)
    (others : ∀ value, Meets source (mid value) (next value) post) :
    Meets source pre (parser >>= next) post := by
  intro cursor ready
  have begun := first cursor ready
  change match (parser cursor >>= fun pair => next pair.1 pair.2) with
    | .ok (value, after) => post value after
    | .error fault => fault.Read source
  cases reached : parser cursor with
  | error fault =>
    rw [reached] at begun
    exact begun
  | ok pair =>
    rw [reached] at begun
    exact others pair.1 pair.2 begun

theorem Meets.mono {parser : Parser α} {fine : α → Cursor → Prop} (meets : Meets source pre parser post)
    (weaker : ∀ value cursor, post value cursor → fine value cursor) : Meets source pre parser fine := by
  intro cursor ready
  have reached := meets cursor ready
  split at reached
  · rename_i value after found
    exact weaker value after reached
  · exact reached

theorem Meets.weaken {parser : Parser α} {less : Cursor → Prop} (meets : Meets source less parser post)
    (stronger : ∀ cursor, pre cursor → less cursor) : Meets source pre parser post :=
  fun cursor ready => meets cursor (stronger cursor ready)

theorem Meets.given {parser : Parser α} {known : Prop} (meets : known → Meets source pre parser post) :
    Meets source (fun cursor => known ∧ pre cursor) parser post :=
  fun cursor ready => meets ready.1 cursor ready.2

theorem meets_fail {fault : Fault} (sited : fault.Sited source) :
    Meets source pre (fail fault : Parser α) post := fun _ _ => .inl sited

theorem Meets.never {parser : Parser α} {next : α → Parser β} {post : β → Cursor → Prop}
    (refuses : Meets source pre parser fun _ _ => False) : Meets source pre (parser >>= next) post :=
  refuses.bind fun _ _ impossible => impossible.elim

theorem meets_unexpected {expected : Option Expectation} (inner : ∀ cursor, pre cursor →
    ∃ depth room, cursor.Inner source depth room) :
    Meets source pre (unexpected expected : Parser α) post := by
  intro cursor ready
  obtain ⟨depth, room, leads, going⟩ := inner cursor ready
  exact .inl (leads.sited_unexpected going expected)

theorem meets_peek : Meets source pre peek fun token cursor => token = cursor.peek ∧ pre cursor :=
  fun _ ready => ⟨rfl, ready⟩

theorem meets_atPunctuator {text : String} : Meets source pre (atPunctuator text)
    fun found cursor => found = cursor.peek.is .punctuator text ∧ pre cursor :=
  fun _ ready => ⟨rfl, ready⟩

theorem meets_atKeyword {text : String} : Meets source pre (atKeyword text)
    fun found cursor => found = cursor.peek.is .keyword text ∧ pre cursor :=
  fun _ ready => ⟨rfl, ready⟩

theorem meets_skipNewlines : Meets source (Cursor.Leads source depth room) skipNewlines
    fun _ => Cursor.Leads source depth room :=
  fun _ leads => leads.skipNewlines

theorem meets_next (ready : ∀ cursor, pre cursor →
    cursor.peek.kind.isContent = true ∧ cursor.Leads source depth room) :
    Meets source pre next fun token cursor =>
      (token.span.PointsInto source ∧ 0 < room) ∧ cursor.Inner source depth (room - 1) := by
  intro cursor fine
  obtain ⟨content, leads⟩ := ready cursor fine
  obtain ⟨some_, onward⟩ := leads.advance_content content
  exact ⟨⟨leads.points_peek (Cursor.going_of_content content), some_⟩, onward⟩

theorem isContent_of_is {token : Token} {kind : TokenKind} {text : String}
    (content : kind.isContent = true) (found : true = token.is kind text) :
    token.kind.isContent = true := by
  obtain ⟨same, -⟩ := Token.is_iff.1 found.symm
  rw [same, content]

theorem meets_punctuator? {text : String} :
    Meets source (Cursor.Inner source depth room) (punctuator? text) fun found cursor =>
      match found with
      | some token => (token.span.PointsInto source ∧ 0 < room) ∧ cursor.Inner source depth (room - 1)
      | none => cursor.Inner source depth room := by
  refine meets_atPunctuator.bind fun found => ?_
  split
  · rename_i here
    refine (meets_next fun cursor ready => ?_).bind fun token => meets_pure fun _ holds => holds
    exact ⟨isContent_of_is rfl (here ▸ ready.1), ready.2.toLeads⟩
  · exact meets_pure fun _ ready => ready.2

theorem meets_punctuator {text : String} :
    Meets source (Cursor.Inner source depth room) (punctuator text) fun token cursor =>
      (token.span.PointsInto source ∧ 0 < room) ∧ cursor.Inner source depth (room - 1) := by
  refine meets_punctuator?.bind fun found => ?_
  cases found with
  | some token => exact meets_pure fun _ holds => holds
  | none => exact meets_unexpected fun _ inner => ⟨depth, room, inner⟩

theorem meets_token {kind : TokenKind} (content : kind.isContent = true) :
    Meets source (Cursor.Inner source depth room) (token kind) fun token cursor =>
      (token.span.PointsInto source ∧ 0 < room) ∧ cursor.Inner source depth (room - 1) := by
  refine meets_peek.bind fun found => ?_
  split
  · rename_i same
    refine meets_next fun cursor ready => ⟨?_, ready.2.toLeads⟩
    rw [← ready.1, same, content]
  · exact meets_unexpected fun _ ready => ⟨depth, room, ready.2⟩

theorem meets_newline : Meets source (Cursor.Inner source depth room) (token .newline) fun _ cursor =>
    (∃ last ∈ cursor.previous, last.span.PointsInto source) ∧ cursor.Leads source depth (room - 1) := by
  refine meets_peek.bind fun found => ?_
  split
  · rename_i kind
    rintro cursor ⟨rfl, inner⟩
    obtain ⟨-, onward⟩ := inner.advance_newline kind
    refine ⟨⟨cursor.peek, ?_, inner.points_peek inner.going⟩, onward⟩
    obtain ⟨previous, upcoming, ending⟩ := cursor
    cases upcoming with
    | nil => exact absurd inner.sound.ending inner.going.2
    | cons token rest => exact rfl
  · exact meets_unexpected fun _ ready => ⟨depth, room, ready.2⟩

/-- Behind the end of a line a block is opened. If the text ends there, what is refused is the end of the line,
or that another block is closed. -/
theorem meets_indent : Meets source
    (fun cursor => (∃ last ∈ cursor.previous, last.span.PointsInto source) ∧ cursor.Leads source depth room)
    (token .indent) fun _ => Cursor.Leads source (depth + 1) room := by
  refine meets_peek.bind fun found => ?_
  split
  · rename_i kind
    rintro cursor ⟨rfl, -, leads⟩
    obtain ⟨-, onward⟩ := leads.advance (by simp [kind]) (depth + 1) fun rest nested => by
      unfold Token.Nested at nested
      simpa only [kind] using nested
    exact onward.mono (Nat.sub_le _ _)
  · rintro cursor ⟨rfl, ⟨last, read, points⟩, leads⟩
    exact leads.read_unexpected read points

theorem meets_dedent : Meets source
    (fun cursor => cursor.Leads source (depth + 1) room ∧
      (cursor.peek.kind = .dedent ∨ cursor.peek.kind = .endOfProgram))
    (token .dedent) fun token cursor => token.span.Runs ∧ cursor.Leads source depth room := by
  rintro ⟨previous, upcoming, ending⟩ ⟨leads, closes⟩
  cases upcoming with
  | nil => cases leads.nested
  | cons token rest =>
    have going : token.kind ≠ .endOfProgram := (leads.sound.lexed token List.mem_cons_self).2
    have kind : token.kind = .dedent := closes.resolve_right going
    obtain ⟨-, onward⟩ := leads.advance going depth fun rest nested => by
      change Token.Nested (depth + 1) (token :: rest) at nested
      simp only [Token.Nested, kind] at nested
      obtain ⟨outer, same, inside⟩ := nested
      cases same
      exact inside
    have reads : Parser.token .dedent ⟨previous, token :: rest, ending⟩ =
        .ok (token, Cursor.advance ⟨previous, token :: rest, ending⟩) := by
      change (if token.kind = .dedent then next else unexpected _) _ = _
      rw [if_pos kind]
      rfl
    rw [reads]
    refine ⟨?_, onward.mono (Nat.sub_le _ _)⟩
    rcases leads.placed token List.mem_cons_self with points | ⟨-, place⟩
    · exact points.toRuns
    · rw [place]
      exact Span.runs_point

/-- A line ends where its last token is read, since nothing is closed on it. -/
theorem meets_endOfLine : Meets source (Cursor.Inner source depth room) endOfLine
    fun _ => Cursor.Leads source depth room := by
  refine meets_peek.bind fun found => ?_
  split
  · rename_i kind
    rintro cursor ⟨rfl, inner⟩
    exact (inner.advance_newline kind).2.mono (Nat.sub_le _ _)
  · rename_i kind
    rintro cursor ⟨rfl, inner⟩
    exact absurd kind inner.going.2
  · rename_i kind
    rintro cursor ⟨rfl, inner⟩
    exact absurd kind inner.going.1
  · exact meets_unexpected fun _ ready => ⟨depth, room, ready.2⟩

end Parser

end TabScript
