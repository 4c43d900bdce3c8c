import TabScript.Proofs.Pointing.Reading
import TabScript.Proofs.Pointing.Tree
import TabScript.Proofs.Spelling.Program

/-! What is parsed stands in the text, and so does what is refused.

The budget of a reader is as large as the tokens ahead need: every call of one reader by another takes a part
of it, and after some calls a token has been read. So it never runs out. -/

set_option autoImplicit false

namespace TabScript

namespace Parser

open Cursor (Leads Inner)

-- In all bounds below, five calls are reckoned for every token. What is added orders the readers that call
-- each other before they have read one: the caller is allowed one more call than the reader that it calls.

variable {source : List Char} {depth : Nat}

theorem sited_atom {token : Token} (points : token.span.PointsInto source) :
    (atom token).Sited source := by
  unfold atom
  split <;> exact points

mutual

theorem meets_expression : ∀ (budget least room : Nat), 5 * room + 1 ≤ budget →
    Meets source (Inner source depth room) (expression .standard budget least) fun node cursor =>
      (node.Sited source ∧ 0 < room) ∧ cursor.Inner source depth (room - 1)
  | 0, _, _, _ => by omega
  | budget + 1, least, room, enough => by
    rw [expression]
    refine meets_peek.bind fun first => ?_
    split
    · exact meets_unexpected fun _ ready => ⟨depth, room, ready.2⟩
    · rename_i rule known
      refine (meets_next fun cursor ready => ⟨?_, ready.2.toLeads⟩).bind fun token => .given ?_
      · exact ready.1 ▸ Token.isContent_of_leading known
      rintro ⟨points, some_⟩
      refine (meets_leading budget rule token (room - 1) points (by omega)).bind fun left => .given ?_
      intro sited
      refine (meets_trailing budget least left (room - 1) sited (by omega)).mono ?_
      exact fun node cursor read => ⟨⟨read.1, some_⟩, read.2⟩

theorem meets_leading : ∀ (budget : Nat) (rule : LeadingRule) (token : Token) (room : Nat),
    token.span.PointsInto source → 5 * room + 3 ≤ budget →
    Meets source (Inner source depth room) (leading .standard budget rule token) fun node cursor =>
      node.Sited source ∧ cursor.Inner source depth room
  | 0, _, _, _, _, _ => by omega
  | budget + 1, .atom, token, room, points, _ => by
    rw [leading]
    exact meets_pure fun _ inner => ⟨sited_atom points, inner⟩
  | budget + 1, .noneLiteral, token, room, points, _ => by
    rw [leading]
    exact meets_pure fun _ inner => ⟨points, inner⟩
  | budget + 1, .group, token, room, points, enough => by
    rw [leading]
    refine (meets_expression budget _ room (by omega)).bind fun inner => .given ?_
    rintro ⟨sited, -⟩
    refine meets_punctuator.bind fun close => .given ?_
    rintro ⟨ends, -⟩
    exact meets_pure fun _ behind => ⟨sited.withSpan (points.union ends.toRuns), behind.mono (by omega)⟩
  | budget + 1, .array, token, room, points, enough => by
    rw [leading]
    refine (meets_sequence budget "]" [] room trivial (by omega)).bind fun found => .given ?_
    rintro ⟨sited, ends⟩
    exact meets_pure fun _ behind => ⟨⟨points.union ends.toRuns, sited⟩, behind⟩
  | budget + 1, .unary precedence, token, room, points, enough => by
    rw [leading]
    split
    · exact meets_fail ⟨rfl, points⟩
    · refine (meets_expression budget precedence room (by omega)).bind fun operand => .given ?_
      rintro ⟨sited, -⟩
      exact meets_pure fun _ behind =>
        ⟨⟨points.union sited.span.toRuns, points, sited⟩, behind.mono (by omega)⟩

theorem meets_trailing : ∀ (budget least : Nat) (left : Node) (room : Nat), left.Sited source →
    5 * room + 1 ≤ budget →
    Meets source (Inner source depth room) (trailing .standard budget least left) fun node cursor =>
      node.Sited source ∧ cursor.Inner source depth room
  | 0, _, _, _, _, _ => by omega
  | budget + 1, least, left, room, sited, enough => by
    rw [trailing]
    refine meets_peek.bind fun first => ?_
    split
    · exact meets_pure fun _ ready => ⟨sited, ready.2⟩
    · rename_i rule known
      split
      · refine (meets_next fun cursor ready => ⟨?_, ready.2.toLeads⟩).bind fun token => .given ?_
        · exact ready.1 ▸ Token.isContent_of_trailing known
        rintro ⟨points, some_⟩
        refine (meets_join budget rule left token (room - 1) sited points (by omega)).bind
          fun joined => .given fun whole => ?_
        refine (meets_trailing budget least joined (room - 1) whole (by omega)).mono ?_
        exact fun node cursor read => ⟨read.1, read.2.mono (by omega)⟩
      · exact meets_pure fun _ ready => ⟨sited, ready.2⟩

theorem meets_join : ∀ (budget : Nat) (rule : TrailingRule) (left : Node) (token : Token) (room : Nat),
    left.Sited source → token.span.PointsInto source → 5 * room + 3 ≤ budget →
    Meets source (Inner source depth room) (join .standard budget rule left token) fun node cursor =>
      node.Sited source ∧ cursor.Inner source depth room
  | 0, _, _, _, _, _, _, _ => by omega
  | budget + 1, rule, left, token, room, sited, points, enough => by
    rw [join]
    split
    · split
      · exact meets_fail ⟨rfl, points⟩
      · refine (meets_expression budget _ room (by omega)).bind fun right => .given ?_
        rintro ⟨other, -⟩
        exact meets_pure fun _ behind =>
          ⟨⟨sited.span.union other.span.toRuns, points, sited, other⟩, behind.mono (by omega)⟩
    · split
      · refine (meets_expression budget _ room (by omega)).bind fun value => .given ?_
        rintro ⟨other, -⟩
        exact meets_pure fun _ behind =>
          ⟨⟨sited.span.union other.span.toRuns, sited, other⟩, behind.mono (by omega)⟩
      · exact meets_fail ⟨rfl, points⟩
    · refine (meets_sequence budget ")" [] room trivial (by omega)).bind fun found => .given ?_
      rintro ⟨given, ends⟩
      exact meets_pure fun _ behind => ⟨⟨sited.span.union ends.toRuns, sited, given⟩, behind⟩
    · refine meets_atPunctuator.bind fun missing => ?_
      split
      · exact (meets_unexpected fun _ ready => ⟨depth, room, ready.2⟩).never
      refine ((meets_expression budget _ room (by omega)).weaken fun _ ready => ready.2).bind
        fun start => .given ?_
      rintro ⟨first, some_⟩
      refine meets_punctuator?.bind fun colon => ?_
      cases colon with
      | some colon =>
        refine .given fun _ => ?_
        refine (meets_expression budget _ _ (by omega)).bind fun stop => .given ?_
        rintro ⟨last, -⟩
        refine meets_punctuator.bind fun close => .given ?_
        rintro ⟨ends, -⟩
        exact meets_pure fun _ behind =>
          ⟨⟨sited.span.union ends.toRuns, sited, first, last⟩, behind.mono (by omega)⟩
      | none =>
        refine meets_punctuator.bind fun close => .given ?_
        rintro ⟨ends, -⟩
        exact meets_pure fun _ behind =>
          ⟨⟨sited.span.union ends.toRuns, sited, first⟩, behind.mono (by omega)⟩

theorem meets_sequence : ∀ (budget : Nat) (close : String) (read : List Node) (room : Nat),
    Node.AreSited source read → 5 * room + 2 ≤ budget →
    Meets source (Inner source depth room) (sequence .standard budget close read) fun found cursor =>
      (Node.AreSited source found.1 ∧ found.2.span.PointsInto source) ∧ cursor.Inner source depth room
  | 0, _, _, _, _, _ => by omega
  | budget + 1, close, read, room, sited, enough => by
    rw [sequence]
    refine meets_punctuator?.bind fun closing => ?_
    cases closing with
    | some token =>
      refine .given fun ends => ?_
      exact meets_pure fun _ behind =>
        ⟨⟨Node.areSited_reverse.2 sited, ends.1⟩, behind.mono (by omega)⟩
    | none =>
      refine (meets_expression budget _ room (by omega)).bind fun item => .given ?_
      rintro ⟨one, some_⟩
      have more : Node.AreSited source (item :: read) := ⟨one, sited⟩
      refine meets_punctuator?.bind fun comma => ?_
      cases comma with
      | some comma =>
        refine .given fun _ => ?_
        refine (meets_sequence budget close (item :: read) _ more (by omega)).mono ?_
        exact fun found cursor read => ⟨read.1, read.2.mono (by omega)⟩
      | none =>
        refine meets_punctuator.bind fun token => .given fun ends => ?_
        exact meets_pure fun _ behind =>
          ⟨⟨Node.areSited_reverse.2 more, ends.1⟩, behind.mono (by omega)⟩

end

theorem meets_parameters : ∀ (budget : Nat) (read : List String) (room : Nat), 5 * room + 1 ≤ budget →
    Meets source (Inner source depth room) (parameters budget read) fun _ =>
      Inner source depth room
  | 0, _, _, _ => by omega
  | budget + 1, read, room, enough => by
    rw [parameters]
    refine meets_atPunctuator.bind fun closing => ?_
    split
    · exact meets_pure fun _ ready => ready.2
    · refine ((meets_token rfl).weaken fun _ ready => ready.2).bind fun parameter => .given ?_
      rintro ⟨points, some_⟩
      dsimp only
      split
      · exact (meets_fail ⟨rfl, points⟩).never
      · refine meets_punctuator?.bind fun comma => ?_
        cases comma with
        | some comma =>
          refine .given fun _ => ?_
          refine (meets_parameters budget _ _ (by omega)).mono ?_
          exact fun _ _ inner => inner.mono (by omega)
        | none => exact meets_pure fun _ inner => inner.mono (by omega)

theorem runs_spanOf {statements : List Node} (sited : Node.AreSited source statements) {otherwise : Span}
    (runs : otherwise.Runs) : (spanOf statements otherwise).Runs := by
  unfold spanOf
  cases statements with
  | nil => exact runs
  | cons first others =>
    refine (sited.1.span.unions fun other inside => ?_).toRuns
    obtain ⟨node, member, rfl⟩ := List.mem_map.1 inside
    exact (Node.areSited_iff.1 sited.2 node member).span.toRuns

mutual

theorem meets_statement : ∀ (budget depth room : Nat), 5 * room + 2 ≤ budget →
    Meets source (Inner source depth room) (statement .standard budget) fun node cursor =>
      (node.Sited source ∧ 0 < room) ∧ cursor.Leads source depth (room - 1)
  | 0, _, _, _ => by omega
  | budget + 1, depth, room, enough => by
    rw [statement]
    refine meets_peek.bind fun first => ?_
    dsimp only
    split
    · refine ((meets_expression budget _ room (by omega)).weaken fun _ ready => ready.2).bind
        fun node => .given fun read => ?_
      exact meets_endOfLine.bind fun _ => meets_pure fun _ behind => ⟨read, behind⟩
    · rename_i rule known
      have keyword : first.kind = .keyword := by
        split at known
        · assumption
        · cases known
      refine (meets_next fun cursor ready => ⟨?_, ready.2.toLeads⟩).bind fun token => .given ?_
      · rw [← ready.1, keyword]
        rfl
      rintro ⟨points, some_⟩
      refine (meets_compound budget rule token depth (room - 1) points (by omega)).mono ?_
      exact fun node cursor read => ⟨⟨read.1, some_⟩, read.2⟩

theorem meets_compound : ∀ (budget : Nat) (rule : StatementRule) (keyword : Token) (depth room : Nat),
    keyword.span.PointsInto source → 5 * room + 2 ≤ budget →
    Meets source (Inner source depth room) (compound .standard budget rule keyword) fun node cursor =>
      node.Sited source ∧ cursor.Leads source depth room
  | 0, _, _, _, _, _, _ => by omega
  | budget + 1, .choice, keyword, depth, room, points, enough => by
    rw [compound]
    refine (meets_expression budget _ room (by omega)).bind fun condition => .given ?_
    rintro ⟨asked, some_⟩
    refine (meets_block budget depth _ (by omega)).bind fun body => .given fun inside => ?_
    refine (meets_branches budget [] depth _ trivial (by omega)).bind fun others =>
      .given fun further => ?_
    refine (meets_alternative budget depth _ (by omega)).bind fun otherwise => .given fun last => ?_
    refine meets_pure fun _ behind => ⟨⟨?_, asked, inside, further, last⟩, behind.mono (by omega)⟩
    -- the statement goes as far as the last of its blocks
    refine points.unions fun other member => ?_
    obtain ⟨block, among, rfl⟩ := List.mem_map.1 member
    simp only [List.cons_append, List.mem_cons, List.mem_append, List.mem_map,
      Option.mem_toList] at among
    rcases among with rfl | ⟨branch, here, rfl⟩ | here
    · exact inside.runs
    · exact (Branch.areSited_iff.1 further branch here).2.runs
    · cases here
      exact Block.Sited.runs last
  | budget + 1, .loop, keyword, depth, room, points, enough => by
    rw [compound]
    refine (meets_expression budget _ room (by omega)).bind fun condition => .given ?_
    rintro ⟨asked, some_⟩
    refine (meets_block budget depth _ (by omega)).bind fun body => .given fun inside => ?_
    exact meets_pure fun _ behind =>
      ⟨⟨points.union inside.runs, asked, inside⟩, behind.mono (by omega)⟩
  | budget + 1, .definition, keyword, depth, room, points, enough => by
    rw [compound]
    refine (meets_token rfl).bind fun name => .given fun ⟨_, _⟩ => ?_
    refine meets_punctuator.bind fun opening => .given fun ⟨_, _⟩ => ?_
    refine (meets_parameters budget [] _ (by omega)).bind fun names => ?_
    refine meets_punctuator.bind fun closing => .given fun ⟨_, _⟩ => ?_
    refine (meets_block budget depth _ (by omega)).bind fun body => .given fun inside => ?_
    exact meets_pure fun _ behind => ⟨⟨points.union inside.runs, inside⟩, behind.mono (by omega)⟩
  | budget + 1, .result, keyword, depth, room, points, enough => by
    rw [compound]
    refine meets_peek.bind fun first => ?_
    have alone : Meets source (fun cursor => first = cursor.peek ∧ cursor.Inner source depth room)
        (do endOfLine; return Node.result keyword.span none) fun node cursor =>
          node.Sited source ∧ cursor.Leads source depth room :=
      (meets_endOfLine.weaken fun _ ready => ready.2).bind fun _ =>
        meets_pure fun _ behind => ⟨points, behind⟩
    split
    · exact alone
    · exact alone
    · exact alone
    · refine ((meets_expression budget _ room (by omega)).weaken fun _ ready => ready.2).bind
        fun value => .given ?_
      rintro ⟨sited, -⟩
      exact meets_endOfLine.bind fun _ => meets_pure fun _ behind =>
        ⟨⟨points.union sited.span.toRuns, sited⟩, behind.mono (by omega)⟩
  | budget + 1, .pass, keyword, depth, room, points, _ => by
    rw [compound]
    exact meets_endOfLine.bind fun _ => meets_pure fun _ behind => ⟨points, behind⟩
  | budget + 1, .deletion, keyword, depth, room, points, enough => by
    rw [compound]
    refine (meets_expression budget _ room (by omega)).bind fun target => .given ?_
    rintro ⟨sited, -⟩
    dsimp only
    split
    · exact (meets_fail ⟨rfl, sited.span⟩).never
    · exact meets_endOfLine.bind fun _ => meets_pure fun _ behind =>
        ⟨⟨points.union sited.span.toRuns, sited⟩, behind.mono (by omega)⟩

theorem meets_branches : ∀ (budget : Nat) (read : List Branch) (depth room : Nat),
    Branch.AreSited source read → 5 * room + 1 ≤ budget →
    Meets source (Leads source depth room) (branches .standard budget read) fun found cursor =>
      Branch.AreSited source found ∧ cursor.Leads source depth room
  | 0, _, _, _, _, _ => by omega
  | budget + 1, read, depth, room, sited, enough => by
    rw [branches]
    refine meets_atKeyword.bind fun another => ?_
    split
    · rename_i here
      refine (meets_next fun cursor ready => ⟨?_, ready.2⟩).bind fun keyword => .given fun ⟨_, _⟩ => ?_
      · exact isContent_of_is rfl (here ▸ ready.1)
      refine (meets_expression budget _ _ (by omega)).bind fun condition => .given ?_
      rintro ⟨asked, -⟩
      refine (meets_block budget depth _ (by omega)).bind fun body => .given fun inside => ?_
      refine (meets_branches budget (.of condition body :: read) depth _ ⟨⟨asked, inside⟩, sited⟩
        (by omega)).mono ?_
      exact fun found cursor read => ⟨read.1, read.2.mono (by omega)⟩
    · exact meets_pure fun _ ready => ⟨Branch.areSited_reverse.2 sited, ready.2⟩

theorem meets_alternative : ∀ (budget depth room : Nat), 5 * room + 1 ≤ budget →
    Meets source (Leads source depth room) (alternative .standard budget) fun found cursor =>
      Block.Sited? source found ∧ cursor.Leads source depth room
  | 0, _, _, _ => by omega
  | budget + 1, depth, room, enough => by
    rw [alternative]
    refine meets_atKeyword.bind fun found => ?_
    split
    · rename_i here
      refine (meets_next fun cursor ready => ⟨?_, ready.2⟩).bind fun keyword => .given fun ⟨_, _⟩ => ?_
      · exact isContent_of_is rfl (here ▸ ready.1)
      refine (meets_block budget depth _ (by omega)).bind fun body => .given fun inside => ?_
      exact meets_pure fun _ behind => ⟨inside, behind.mono (by omega)⟩
    · exact meets_pure fun _ ready => ⟨trivial, ready.2⟩

theorem meets_block : ∀ (budget depth room : Nat), 5 * room + 4 ≤ budget →
    Meets source (Inner source depth room) (block .standard budget) fun found cursor =>
      found.Sited source ∧ cursor.Leads source depth room
  | 0, _, _, _ => by omega
  | budget + 1, depth, room, enough => by
    rw [block]
    refine meets_punctuator.bind fun colon => .given fun ⟨_, _⟩ => ?_
    refine meets_newline.bind fun newline => ?_
    refine meets_indent.bind fun indent => ?_
    refine meets_skipNewlines.bind fun _ => ?_
    dsimp only
    refine (meets_statements budget _ [] (depth + 1) _ trivial (by omega) ?_).bind
      fun found => .given fun inside => ?_
    · intro cursor leads going
      simpa [Cursor.Going] using going
    · refine (meets_dedent.weaken fun cursor ready => ⟨ready.1, by simpa using ready.2⟩).bind
        fun dedent => .given fun runs => ?_
      exact meets_pure fun _ behind => ⟨⟨runs_spanOf inside runs, inside⟩, behind.mono (by omega)⟩

theorem meets_statements : ∀ (budget : Nat) (ends : TokenKind → Bool) (read : List Node) (depth room : Nat),
    Node.AreSited source read → 5 * room + 3 ≤ budget →
    (∀ cursor : Cursor, cursor.Leads source depth room → ends cursor.peek.kind = false → cursor.Going) →
    Meets source (Leads source depth room) (statements .standard budget ends read) fun found cursor =>
      Node.AreSited source found ∧ cursor.Leads source depth room ∧ ends cursor.peek.kind = true
  | 0, _, _, _, _, _, _, _ => by omega
  | budget + 1, ends, read, depth, room, sited, enough, begins => by
    rw [statements]
    refine meets_peek.bind fun first => ?_
    split
    · rename_i ended
      exact meets_pure fun _ ready =>
        ⟨Node.areSited_reverse.2 sited, ready.2, by rw [← ready.1]; exact ended⟩
    · rename_i going
      refine ((meets_statement budget depth room (by omega)).weaken ?_).bind fun node => .given ?_
      · rintro cursor ⟨rfl, leads⟩
        exact ⟨leads, begins cursor leads (Bool.eq_false_iff.2 going)⟩
      rintro ⟨one, some_⟩
      refine meets_skipNewlines.bind fun _ => ?_
      have fewer : ∀ cursor : Cursor, cursor.Leads source depth (room - 1) →
          ends cursor.peek.kind = false → cursor.Going :=
        fun cursor leads => begins cursor (leads.mono (Nat.sub_le _ _))
      refine (meets_statements budget ends (node :: read) depth _ ⟨one, sited⟩ (by omega) fewer).mono ?_
      exact fun found cursor read => ⟨read.1, read.2.1.mono (by omega), read.2.2⟩

end

theorem meets_program (room : Nat) : Meets source
    (fun cursor => cursor.upcoming.length = room ∧ cursor.Leads source 0 room) (program .standard)
    fun found _ => Node.AreSited source found.statements := by
  rw [program]
  have counts : Meets source (fun cursor => cursor.upcoming.length = room ∧ cursor.Leads source 0 room)
      (get : Parser Cursor) fun start cursor =>
        start.upcoming.length = room ∧ cursor.Leads source 0 room := fun _ ready => ready
  refine counts.bind fun start => .given fun counted => ?_
  refine meets_skipNewlines.bind fun _ => ?_
  refine (meets_statements _ _ [] 0 room trivial (by rw [budgetFor, counted]; omega) ?_).bind
    fun nodes => .given fun sited => ?_
  · intro cursor leads going
    refine ⟨fun closing => ?_, by simpa using going⟩
    obtain ⟨previous, upcoming, ending⟩ := cursor
    -- with no block open, the tokens are not nested if one is closed first
    cases upcoming with
    | nil => exact absurd (leads.sound.ending.symm.trans closing) (by decide)
    | cons token rest =>
      have nested := leads.nested
      have kind : token.kind = .dedent := closing
      simp only [Token.Nested, kind] at nested
      obtain ⟨outer, impossible, -⟩ := nested
      cases impossible
  · exact meets_peek.bind fun last => meets_pure fun _ _ => sited

end Parser

/-- The tokens of a text stand in front of a reader with no block open. -/
theorem Cursor.leads_tokenize {source : String} {content : List Token} {ending : Token}
    (read : tokenize source = .ok (content ++ [ending])) (kind : ending.kind = .endOfProgram)
    (others : ∀ token ∈ content, token.kind ≠ .endOfProgram) :
    Leads source.toList 0 content.length ⟨none, content, ending⟩ := by
  refine ⟨sound_tokenize read kind others, fun token inside => ?_, ?_, Nat.le_refl _⟩
  · exact (placed_tokenize source).of_ok read token (List.mem_append_left _ inside)
  · obtain ⟨-, lines, structured⟩ := (tokenize_structured source).1 _ read
    have last : Token.level [ending] = 0 := by simp [Token.level, kind]
    refine Token.nested_of_level ?_ fun part begins => ?_
    · have balanced := structured.balanced
      rw [Token.level_append, last] at balanced
      simpa using balanced
    · exact structured.bounded part (begins.trans (List.prefix_append _ _))

/-- What is refused of a text is found at one of its lines, or where a block is missing at its end. -/
theorem read_parse (source : String) :
    Verdict (fun program => Node.AreSited source.toList program.statements) (Fault.Read source.toList)
      (parse source) := by
  unfold parse
  cases lexed : tokenize source with
  | error fault => exact .error (.inl ((placed_tokenize source).of_error lexed))
  | ok tokens =>
    obtain ⟨content, ending, rfl, kind, others⟩ := (lined_tokenize lexed).2
    have meets := Parser.meets_program content.length _
      ⟨rfl, Cursor.leads_tokenize lexed kind others⟩
    change Verdict _ _ (parseTokens .standard (content ++ [ending]))
    rw [parseTokens, Cursor.ofTokens_ended kind others]
    cases reached : Parser.program .standard ⟨none, content, ending⟩ with
    | error fault =>
      rw [reached] at meets
      exact .error meets
    | ok pair =>
      rw [reached] at meets
      exact .ok meets

end TabScript
