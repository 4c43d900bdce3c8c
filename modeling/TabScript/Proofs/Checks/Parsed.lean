import TabScript.Proofs.Checks.Reading
import TabScript.Proofs.Checks.Tree
import TabScript.Proofs.Layout.Structure

/-! What is parsed is well-formed.

Below statements, expressions are read with a precedence that an assignment does not reach. At the level
of statements an assignment ends what is read: nothing binds to it but one more assignment, which is
refused. A block has a statement because something stands on the line that opens it. -/

set_option autoImplicit false

namespace TabScript

theorem Grammar.assign_iff {symbol : String} {rule : TrailingRule}
    (known : standard.trailing? symbol = some rule) :
    (rule.form = .assign ∧ rule.precedence = Precedence.assignment) ∨
      (rule.form ≠ .assign ∧ Precedence.assignment < rule.precedence) := by
  have all : ∀ entry ∈ standard.trailing,
      (entry.2.form = .assign ∧ entry.2.precedence = Precedence.assignment) ∨
        (entry.2.form ≠ .assign ∧ Precedence.assignment < entry.2.precedence) := by decide
  obtain ⟨before, after, entries, -⟩ := List.lookup_eq_some_iff.1 known
  exact all (symbol, rule) (by rw [entries]; simp)

/-- The operand of a sign or a negation is read past where an assignment would stand. -/
theorem Grammar.assignment_le_unary {symbol : String} {precedence : Nat}
    (known : standard.leading? symbol = some (.unary precedence)) :
    Precedence.assignment ≤ precedence := by
  have all : ∀ entry ∈ standard.leading,
      entry.2 = .unary Precedence.unary ∨ entry.2 = .atom ∨ entry.2 = .noneLiteral ∨
        entry.2 = .group ∨ entry.2 = .array := by decide
  obtain ⟨before, after, entries, -⟩ := List.lookup_eq_some_iff.1 known
  have one := all (symbol, .unary precedence) (by rw [entries]; simp)
  have same : precedence = Precedence.unary := by simpa using one
  rw [same]
  decide

def Node.IsAssignment (node : Node) : Prop :=
  node.tag = .assignment ∧ node.IsProper

namespace Parser

def Whole (least : Nat) (node : Node) : Prop :=
  node.IsOperand ∨ (least < Precedence.assignment ∧ node.IsAssignment)

def Held (strength : Nat) (cursor : Cursor) : Prop :=
  ∀ rule, Grammar.standard.trailing? cursor.peek.symbol = some rule → rule.precedence ≤ strength

/-- A left operand with what may follow it: behind an assignment nothing that could be joined to it. -/
def Left (least : Nat) (node : Node) (cursor : Cursor) : Prop :=
  node.IsOperand ∨
    (least < Precedence.assignment ∧ node.IsAssignment ∧ Held Precedence.assignment cursor)

theorem Whole.isOperand {least : Nat} {node : Node} (whole : Whole least node)
    (inside : Precedence.assignment ≤ least) : node.IsOperand :=
  whole.resolve_right fun assigns => absurd assigns.1 (Nat.not_lt.2 inside)

theorem Left.whole {least : Nat} {node : Node} {cursor : Cursor} (left : Left least node cursor) :
    Whole least node :=
  left.imp id fun assigns => ⟨assigns.1, assigns.2.1⟩

theorem Whole.isProper {least : Nat} {node : Node} (whole : Whole least node) :
    node.IsProper :=
  whole.elim Node.IsOperand.isProper fun assigns => assigns.2.2

theorem isOperand_atom (token : Token) : (atom token).IsOperand := by
  unfold atom
  split <;> trivial

theorem Yields.operand {budget least : Nat} {pre : Cursor → Prop}
    (reads : Yields Anywhere (expression .standard budget least)
      fun node cursor => Whole least node ∧ Held least cursor)
    (inside : Precedence.assignment ≤ least) :
    Yields pre (expression .standard budget least)
      fun node cursor => node.IsOperand ∧ Held least cursor :=
  reads.strip.mono fun _ _ read => ⟨read.1.isOperand inside, read.2⟩

mutual

theorem yields_expression : ∀ budget least : Nat,
    Yields Anywhere (expression .standard budget least)
      fun node cursor => Whole least node ∧ Held least cursor
  | 0, _ => by
    rw [expression]
    exact yields_exhausted
  | budget + 1, least => by
    rw [expression]
    refine yields_peek.bind fun token => ?_
    split
    · exact yields_unexpected
    · rename_i rule known
      refine yields_next.bind fun token => ?_
      refine (yields_leading budget rule token ⟨_, known⟩).strip.bind fun left => ?_
      refine Yields.knowing (fun _ proper => proper) fun proper => ?_
      exact (yields_trailing budget least left).weaken fun _ _ => .inl proper

theorem yields_leading : ∀ (budget : Nat) (rule : LeadingRule) (token : Token),
    (∃ symbol, Grammar.standard.leading? symbol = some rule) →
    Yields Anywhere (leading .standard budget rule token) fun node _ => node.IsOperand
  | 0, _, _, _ => by
    rw [leading]
    exact yields_exhausted
  | budget + 1, rule, token, known => by
    cases rule with
    | atom =>
      rw [leading]
      exact yields_pure fun _ _ => isOperand_atom token
    | noneLiteral =>
      rw [leading]
      exact yields_pure fun _ _ => trivial
    | group =>
      rw [leading]
      refine ((yields_expression budget _).operand (Nat.le_refl _)).bind fun inner => ?_
      refine Yields.knowing (fun _ read => read.1) fun proper => ?_
      refine yields_punctuator.bind fun close => ?_
      exact yields_pure fun _ _ => (Node.isOperand_withSpan ..).2 proper
    | array =>
      rw [leading]
      refine (yields_sequence budget "]" [] trivial).strip.bind fun found => ?_
      exact yields_pure fun _ proper => proper
    | unary precedence =>
      rw [leading]
      split
      · exact yields_fail
      · obtain ⟨symbol, known⟩ := known
        refine ((yields_expression budget precedence).operand
          (Grammar.assignment_le_unary known)).bind fun operand => ?_
        exact yields_pure fun _ read => read.1

theorem yields_trailing : ∀ (budget least : Nat) (left : Node),
    Yields (Left least left) (trailing .standard budget least left)
      fun node cursor => Whole least node ∧ Held least cursor
  | 0, _, _ => by
    rw [trailing]
    exact yields_exhausted
  | budget + 1, least, left => by
    rw [trailing]
    refine yields_peek.bind fun token => ?_
    split
    · rename_i unknown
      refine yields_pure fun cursor ready => ⟨ready.2.whole, fun rule known => ?_⟩
      rw [← ready.1, unknown] at known
      cases known
    · rename_i rule known
      split
      · rename_i binds
        -- nothing that binds more strongly follows an assignment, since its value would have taken it
        refine Yields.knowing (P := left.IsOperand ∨
          (left.IsAssignment ∧ rule.precedence ≤ Precedence.assignment)) ?_ fun operand => ?_
        · rintro cursor ⟨here, proper | ⟨-, assigns, held⟩⟩
          · exact .inl proper
          · exact .inr ⟨assigns, held rule (here ▸ known)⟩
        · refine yields_next.bind fun token => ?_
          refine (yields_join budget rule left token ⟨_, known⟩ operand least binds).strip.bind
            fun joined => ?_
          exact yields_trailing budget least joined
      · rename_i weak
        refine yields_pure fun cursor ready => ⟨ready.2.whole, fun other found => ?_⟩
        rw [← ready.1, known] at found
        cases found
        exact Nat.not_lt.1 weak

theorem yields_join : ∀ (budget : Nat) (rule : TrailingRule) (left : Node) (token : Token),
    (∃ symbol, Grammar.standard.trailing? symbol = some rule) →
    left.IsOperand ∨ (left.IsAssignment ∧ rule.precedence ≤ Precedence.assignment) →
    ∀ least : Nat, least < rule.precedence →
    Yields Anywhere (join .standard budget rule left token) (Left least)
  | 0, _, _, _, _, _, _, _ => by
    rw [join]
    exact yields_exhausted
  | budget + 1, rule, left, token, known, operand, least, binds => by
    obtain ⟨symbol, known⟩ := known
    have strength := Grammar.assign_iff known
    -- every form but the assignment binds more strongly than it, so an operand stands before it
    have proper : rule.form ≠ .assign →
        left.IsOperand ∧ Precedence.assignment < rule.precedence := by
      intro other
      have strong := (strength.resolve_left fun assigns => other assigns.1).2
      exact ⟨operand.resolve_right fun assigns => absurd assigns.2 (Nat.not_le.2 strong), strong⟩
    rw [join]
    split
    · rename_i form
      obtain ⟨proper, strong⟩ := proper (by rw [form]; simp)
      split
      · exact yields_fail
      · refine ((yields_expression budget _).operand (Nat.le_of_lt strong)).bind fun right => ?_
        exact yields_pure fun _ read => .inl ⟨proper, read.1⟩
    · rename_i form
      have same : rule.precedence = Precedence.assignment :=
        (strength.resolve_right fun other => other.1 form).2
      split
      · rename_i assignable
        have proper : left.IsOperand := operand.resolve_right fun assigns => by
          simp [Node.isAssignable, assigns.1.1] at assignable
        refine ((yields_expression budget _).operand (Nat.le_of_eq same.symm)).bind fun value => ?_
        refine yields_pure fun cursor read =>
          .inr ⟨same ▸ binds, ⟨rfl, ⟨assignable, proper⟩, read.1⟩, ?_⟩
        exact same ▸ read.2
      · exact yields_fail
    · rename_i form
      obtain ⟨proper, -⟩ := proper (by rw [form]; simp)
      refine (yields_sequence budget ")" [] trivial).strip.bind fun found => ?_
      exact yields_pure fun _ items => .inl ⟨proper, items⟩
    · rename_i form
      obtain ⟨proper, -⟩ := proper (by rw [form]; simp)
      refine yields_atPunctuator.bind fun missing => ?_
      split
      · exact yields_refused
      · refine ((yields_expression budget _).operand (Nat.le_refl _)).bind fun start => ?_
        refine Yields.knowing (fun _ read => read.1) fun first => ?_
        refine yields_punctuator?.bind fun colon => ?_
        split
        · refine ((yields_expression budget _).operand (Nat.le_refl _)).bind fun stop => ?_
          refine Yields.knowing (fun _ read => read.1) fun last => ?_
          refine yields_punctuator.bind fun close => ?_
          exact yields_pure fun _ _ => .inl ⟨proper, first, last⟩
        · refine yields_punctuator.bind fun close => ?_
          exact yields_pure fun _ _ => .inl ⟨proper, first⟩

theorem yields_sequence : ∀ (budget : Nat) (close : String) (read : List Node),
    Node.AreOperands read →
    Yields Anywhere (sequence .standard budget close read) fun found _ => Node.AreOperands found.1
  | 0, _, _, _ => by
    rw [sequence]
    exact yields_exhausted
  | budget + 1, close, read, proper => by
    rw [sequence]
    refine yields_punctuator?.bind fun closing => ?_
    split
    · exact yields_pure fun _ _ => Node.areOperands_reverse.2 proper
    · refine ((yields_expression budget _).operand (Nat.le_refl _)).bind fun item => ?_
      refine Yields.knowing (fun _ read => read.1) fun one => ?_
      refine yields_punctuator?.bind fun comma => ?_
      split
      · exact (yields_sequence budget close (item :: read) ⟨one, proper⟩).strip
      · refine yields_punctuator.bind fun token => ?_
        exact yields_pure fun _ _ => Node.areOperands_reverse.2 ⟨one, proper⟩

end

theorem yields_parameters : ∀ (budget : Nat) (read : List String), read.Nodup →
    Yields Anywhere (parameters budget read) fun names _ => names.Nodup
  | 0, _, _ => by
    rw [parameters]
    exact yields_exhausted
  | budget + 1, read, distinct => by
    rw [parameters]
    refine yields_atPunctuator.bind fun closing => ?_
    split
    · exact yields_pure fun _ _ => List.pairwise_reverse.2 (distinct.imp Ne.symm)
    · refine yields_token.bind fun parameter => ?_
      dsimp only
      split
      · exact yields_failed
      · rename_i new
        -- a name that was there before is refused by the reader
        have larger : (parameter.text?.getD "" :: read).Nodup :=
          List.nodup_cons.2 ⟨by simpa using new, distinct⟩
        refine yields_punctuator?.bind fun comma => ?_
        split
        · exact (yields_parameters budget _ larger).strip
        · exact yields_pure fun _ _ => List.pairwise_reverse.2 (larger.imp Ne.symm)

mutual

theorem yields_statement : ∀ budget : Nat,
    Yields Anywhere (statement .standard budget) fun node _ => node.IsProper
  | 0 => by
    rw [statement]
    exact yields_exhausted
  | budget + 1 => by
    rw [statement]
    refine yields_peek.bind fun first => ?_
    dsimp only
    split
    · refine (yields_expression budget _).strip.bind fun node => ?_
      refine Yields.knowing (fun _ read => read.1.isProper) fun proper => ?_
      exact yields_endOfLine.bind fun _ => yields_pure fun _ _ => proper
    · exact yields_next.bind fun keyword => (yields_compound budget _ keyword).strip

theorem yields_compound : ∀ (budget : Nat) (rule : StatementRule) (keyword : Token),
    Yields Anywhere (compound .standard budget rule keyword) fun node _ => node.IsProper
  | 0, _, _ => by
    rw [compound]
    exact yields_exhausted
  | budget + 1, .choice, keyword => by
    rw [compound]
    refine ((yields_expression budget _).operand (Nat.le_refl _)).bind fun condition => ?_
    refine Yields.knowing (fun _ read => read.1) fun asked => ?_
    refine (yields_block budget).strip.bind fun body => ?_
    refine Yields.knowing (fun _ read => read) fun filled => ?_
    refine (yields_branches budget [] trivial).strip.bind fun others => ?_
    refine Yields.knowing (fun _ read => read) fun further => ?_
    refine (yields_alternative budget).strip.bind fun otherwise => ?_
    exact yields_pure fun _ last => ⟨asked, filled, further, last⟩
  | budget + 1, .loop, keyword => by
    rw [compound]
    refine ((yields_expression budget _).operand (Nat.le_refl _)).bind fun condition => ?_
    refine Yields.knowing (fun _ read => read.1) fun asked => ?_
    refine (yields_block budget).strip.bind fun body => ?_
    exact yields_pure fun _ filled => ⟨asked, filled⟩
  | budget + 1, .definition, keyword => by
    rw [compound]
    refine yields_token.bind fun name => ?_
    refine yields_punctuator.bind fun opening => ?_
    refine (yields_parameters budget [] List.nodup_nil).strip.bind fun names => ?_
    refine Yields.knowing (fun _ read => read) fun distinct => ?_
    refine yields_punctuator.bind fun closing => ?_
    refine (yields_block budget).strip.bind fun body => ?_
    exact yields_pure fun _ filled => ⟨distinct, filled⟩
  | budget + 1, .result, keyword => by
    rw [compound]
    refine yields_peek.bind fun first => ?_
    split
    · exact yields_endOfLine.bind fun _ => yields_pure fun _ _ => trivial
    · exact yields_endOfLine.bind fun _ => yields_pure fun _ _ => trivial
    · exact yields_endOfLine.bind fun _ => yields_pure fun _ _ => trivial
    · refine ((yields_expression budget _).operand (Nat.le_refl _)).bind fun value => ?_
      refine Yields.knowing (fun _ read => read.1) fun proper => ?_
      exact yields_endOfLine.bind fun _ => yields_pure fun _ _ => proper
  | budget + 1, .pass, keyword => by
    rw [compound]
    exact yields_endOfLine.bind fun _ => yields_pure fun _ _ => trivial
  | budget + 1, .deletion, keyword => by
    rw [compound]
    refine ((yields_expression budget _).operand (Nat.le_refl _)).bind fun target => ?_
    refine Yields.knowing (fun _ read => read.1) fun proper => ?_
    dsimp only
    split
    · exact yields_failed
    · rename_i subscript
      refine yields_endOfLine.bind fun _ => ?_
      exact yields_pure fun _ _ => ⟨Decidable.not_not.1 subscript, proper⟩

theorem yields_branches : ∀ (budget : Nat) (read : List Branch), Branch.AreFilled read →
    Yields Anywhere (branches .standard budget read) fun found _ => Branch.AreFilled found
  | 0, _, _ => by
    rw [branches]
    exact yields_exhausted
  | budget + 1, read, filled => by
    rw [branches]
    refine yields_atKeyword.bind fun another => ?_
    split
    · refine yields_next.bind fun keyword => ?_
      refine ((yields_expression budget _).operand (Nat.le_refl _)).bind fun condition => ?_
      refine Yields.knowing (fun _ read => read.1) fun asked => ?_
      refine (yields_block budget).strip.bind fun body => ?_
      refine Yields.knowing (fun _ read => read) fun inside => ?_
      exact (yields_branches budget (.of condition body :: read) ⟨⟨asked, inside⟩, filled⟩).strip
    · exact yields_pure fun _ _ => Branch.areFilled_reverse.2 filled

theorem yields_alternative : ∀ budget : Nat,
    Yields Anywhere (alternative .standard budget) fun found _ => Block.IsFilled? found
  | 0 => by
    rw [alternative]
    exact yields_exhausted
  | budget + 1 => by
    rw [alternative]
    refine yields_atKeyword.bind fun found => ?_
    split
    · refine yields_next.bind fun keyword => ?_
      refine (yields_block budget).strip.bind fun body => ?_
      exact yields_pure fun _ filled => filled
    · exact yields_pure fun _ _ => trivial

theorem yields_block : ∀ budget : Nat,
    Yields Anywhere (block .standard budget) fun found _ => found.IsFilled
  | 0 => by
    rw [block]
    exact yields_exhausted
  | budget + 1 => by
    rw [block]
    refine yields_punctuator.bind fun colon => ?_
    refine yields_token.bind fun newline => ?_
    refine yields_indent.bind fun indent => ?_
    refine yields_skipNewlines_content.bind fun _ => ?_
    dsimp only
    refine ((yields_statements budget _ [] trivial True).weaken ?_).bind fun found => ?_
    · intro cursor content _
      -- behind an indent there is content, so that the first token begins a statement
      refine .inr ?_
      revert content
      cases cursor.peek.kind <;> decide
    · refine Yields.knowing (fun _ read => read) fun filled => ?_
      refine yields_token.bind fun dedent => ?_
      exact yields_pure fun _ _ => ⟨filled.2 trivial, filled.1⟩

theorem yields_statements : ∀ (budget : Nat) (ends : TokenKind → Bool) (read : List Node),
    Node.AreProper read → ∀ something : Prop,
    Yields (fun cursor => something → read ≠ [] ∨ ends cursor.peek.kind = false)
      (statements .standard budget ends read)
      fun found _ => Node.AreProper found ∧ (something → found ≠ [])
  | 0, _, _, _, _ => by
    rw [statements]
    exact yields_exhausted
  | budget + 1, ends, read, proper, something => by
    rw [statements]
    refine yields_peek.bind fun first => ?_
    split
    · rename_i ended
      refine yields_pure fun cursor ready => ⟨Node.areProper_reverse.2 proper, fun needed empty => ?_⟩
      rcases ready.2 needed with before | going
      · exact before (List.reverse_eq_nil_iff.1 empty)
      · rw [ready.1, going] at ended
        cases ended
    · refine (yields_statement budget).strip.bind fun node => ?_
      refine Yields.knowing (fun _ read => read) fun one => ?_
      refine yields_skipNewlines.bind fun _ => ?_
      exact (yields_statements budget ends (node :: read) ⟨one, proper⟩ something).weaken
        fun _ _ _ => .inl (by simp)

end

theorem yields_get : Yields Anywhere (get : Parser Cursor) fun _ _ => True := by
  intro cursor value after tidy _ read
  cases read
  exact ⟨tidy, trivial⟩

theorem yields_program : Yields Anywhere (program .standard)
    fun found _ => Node.AreProper found.statements := by
  refine yields_get.bind fun cursor => ?_
  refine yields_skipNewlines.bind fun _ => ?_
  refine ((yields_statements _ _ [] trivial False).weaken ?_).bind fun nodes => ?_
  · exact fun _ _ something => something.elim
  · refine Yields.knowing (fun _ read => read.1) fun proper => ?_
    exact yields_peek.bind fun last => yields_pure fun _ _ => proper

end Parser

namespace Token

theorem filled_append {front tokens : List Token} (closed : ∀ token ∈ front, token.kind ≠ .indent)
    (opens : Filled tokens) : Filled (front ++ tokens) := by
  induction front with
  | nil => exact opens
  | cons token front ih =>
    exact ⟨fun indent => absurd indent (closed token (by simp)),
      ih fun other inside => closed other (by simp [inside])⟩

theorem filled_takeWhile {tokens : List Token} (opens : Filled tokens) :
    Filled (tokens.takeWhile (·.kind ≠ .endOfProgram)) := by
  induction tokens with
  | nil => exact opens
  | cons token rest ih =>
    rw [List.takeWhile_cons]
    split
    · refine ⟨fun indent => ?_, ih opens.2⟩
      obtain ⟨next, head, content⟩ := opens.1 indent
      refine ⟨next, ?_, content⟩
      cases rest with
      | nil => cases head
      | cons other rest =>
        cases head
        have kept : next.kind ≠ .endOfProgram := by
          intro ending
          rw [ending] at content
          cases content
        simp [kept]
    · trivial

end Token

theorem Row.Comes.filled {above : Option Row} {rows : List Row} {broken : Option Fault}
    {result : Except Fault (List Token)} (comes : Row.Comes above rows broken result)
    {tokens : List Token} (read : result = .ok tokens) : Token.Filled tokens := by
  induction comes generalizing tokens with
  | done above stop =>
    cases read
    refine Token.filled_append (fun token inside => ?_) ⟨fun indent => (by cases indent), trivial⟩
    rw [(List.mem_replicate.1 inside).2]
    simp [Token.structural]
  | misplaced => cases read
  | broken => cases read
  | @row above row fits something content opening opens ending ends rows broken result others ih =>
    cases result with
    | error other => cases read
    | ok behind =>
      cases read
      -- an indent stands only in front of a row, which is not empty
      have plain : ∀ token ∈ row.content ++ [ending], token.kind ≠ .indent := by
        intro token inside indent
        rcases List.mem_append.1 inside with written | last
        · have kept := content token written
          rw [indent] at kept
          cases kept
        · rw [List.mem_singleton.1 last, ends] at indent
          cases indent
      have rest : Token.Filled (row.content ++ ending :: behind) := by
        have whole := Token.filled_append plain (ih rfl)
        rwa [List.append_assoc, List.singleton_append] at whole
      change Token.Filled (opening ++ row.content ++ ending :: behind)
      rw [List.append_assoc]
      rcases row.opens_opening opens with opened | closes
      · obtain ⟨indent, rfl, -⟩ := List.map_eq_singleton_iff.1 opened
        obtain ⟨first, others, words⟩ := List.exists_cons_of_ne_nil something
        rw [words] at rest ⊢
        exact ⟨fun _ => ⟨first, rfl, content first (by simp [words])⟩, rest⟩
      · refine Token.filled_append (fun token inside => ?_) rest
        rw [closes token inside]
        simp

theorem Cursor.tidy_ofTokens {tokens : List Token} (opens : Token.Filled tokens) :
    (Cursor.ofTokens tokens).Tidy where
  opens := Token.filled_takeWhile opens
  ending := by
    change ((tokens.find? (·.kind = .endOfProgram)).getD _).kind = _
    cases found : tokens.find? (·.kind = .endOfProgram) with
    | none => rfl
    | some token => simpa using List.find?_some found

theorem areProper_parse {source : String} {program : Block} (read : parse source = .ok program) :
    Node.AreProper program.statements := by
  have begun : (none : Option Row) = none ↔ ([] : List Token) = [] := by simp
  obtain ⟨result, comes, same⟩ := Lexer.comes_rows (Scanner.ofString source) begun (by simp)
  obtain ⟨tokens, lexed, parsed⟩ := except_bind_ok read
  have tokenized : result = .ok tokens := by
    change tokenize source = _ at same
    rw [lexed] at same
    cases result with
    | error fault => cases same
    | ok others =>
      cases same
      rfl
  unfold parseTokens at parsed
  cases reads : Parser.program .standard (.ofTokens tokens) with
  | error fault =>
    rw [reads] at parsed
    cases parsed
  | ok result =>
    rw [reads] at parsed
    cases parsed
    exact (Parser.yields_program _ _ _ (Cursor.tidy_ofTokens (comes.filled tokenized)) trivial reads).2

end TabScript
