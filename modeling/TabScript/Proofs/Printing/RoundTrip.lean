import TabScript.Proofs.Printing.Climbing

/-! Programs that are written are read again, up to the places of their parts. -/

set_option autoImplicit false

namespace TabScript

open Token (mark keyword name layout commas pull)

structure Token.Starts (word : Token) : Prop where
  layout : word.kind ≠ .newline ∧ word.kind ≠ .dedent ∧ word.kind ≠ .endOfProgram
  branch : word.is .keyword "elif" = false ∧ word.is .keyword "else" = false

theorem Token.Opens.starts {word : Token} (opens : word.Opens) : word.Starts := by
  have known : Grammar.standard.leading? word.symbol ≠ none := fun none => by
    rw [Token.Opens, none] at opens
    cases opens
  refine ⟨⟨?_, ?_, ?_⟩, ?_, ?_⟩
  · exact fun kind => known (by rw [Token.symbol, kind]; rfl)
  · exact fun kind => known (by rw [Token.symbol, kind]; rfl)
  · exact fun kind => known (by rw [Token.symbol, kind]; rfl)
  all_goals
    rw [Bool.eq_false_iff]
    intro found
    simp only [Token.is, Bool.and_eq_true, beq_iff_eq] at found
    exact known (by rw [Token.symbol, found.1]; simp only [found.2]; rfl)

/-- What may stand behind a statement: no further branch of a choice, and no empty line. -/
structure Token.Apart (rest : List Token) : Prop where
  line : ∀ word ∈ rest.head?, word.kind ≠ .newline
  noBranch : Token.headIs .keyword "elif" rest = false
  noAlternative : Token.headIs .keyword "else" rest = false

theorem Token.Starts.apart {word : Token} (starts : word.Starts) (rest : List Token) :
    Token.Apart (word :: rest) :=
  ⟨fun _ first => Option.some.inj first ▸ starts.layout.1, starts.branch.1, starts.branch.2⟩

theorem Token.apart_dedent (rest : List Token) : Token.Apart (layout .dedent :: rest) :=
  ⟨fun _ first => Option.some.inj first ▸ nofun, rfl, rfl⟩

theorem Token.apart_nil : Token.Apart [] := ⟨fun _ => nofun, rfl, rfl⟩

theorem Node.script_cons (node : Node) (proper : node.IsStatement) :
    ∃ first others, node.script = first :: others ∧ first.Starts := by
  have known : ∀ word ∈ ["if", "while", "def", "return", "pass", "del"], (keyword word).Starts := by
    intro word inside
    simp only [List.mem_cons, List.not_mem_nil, or_false] at inside
    rcases inside with rfl | rfl | rfl | rfl | rfl | rfl <;>
    exact ⟨⟨nofun, nofun, nofun⟩, by decide, by decide⟩
  have expression : ∀ {inner : Node}, inner.IsExpression → ∀ more, ∃ first others,
      inner.words ++ more = first :: others ∧ first.Starts := by
    intro inner holds more
    obtain ⟨first, others, begins, opens⟩ := inner.words_cons holds
    exact ⟨first, others ++ more, by rw [begins, List.cons_append], opens.starts⟩
  cases node with
  | choice _ _ _ _ otherwise => cases otherwise <;> exact ⟨_, _, rfl, known "if" (by simp)⟩
  | loop => exact ⟨_, _, rfl, known "while" (by simp)⟩
  | definition => exact ⟨_, _, rfl, known "def" (by simp)⟩
  | result _ value => cases value <;> exact ⟨_, _, rfl, known "return" (by simp)⟩
  | pass => exact ⟨_, _, rfl, known "pass" (by simp)⟩
  | deletion => exact ⟨_, _, rfl, known "del" (by simp)⟩
  | assignment =>
    rw [IsStatement] at proper
    exact expression proper.2.1 _
  | literal | identifier | unary | binary | call | element | slice | array => exact expression proper _

theorem Node.scripts_apart {nodes : List Node} (proper : Node.AreStatements nodes) {rest : List Token}
    (apart : Token.Apart rest) : Token.Apart (Node.scripts nodes ++ rest) := by
  cases nodes with
  | nil => exact apart
  | cons node nodes =>
    obtain ⟨first, others, begins, starts⟩ := node.script_cons proper.1
    rw [scripts, begins, List.append_assoc, List.cons_append]
    exact starts.apart _

theorem Grammar.leading?_of_statement? {symbol : String} {rule : StatementRule}
    (found : standard.statement? symbol = some rule) : standard.leading? symbol = none := by
  obtain ⟨before, after, split, -⟩ := List.lookup_eq_some_iff.1 found
  have known : (symbol, rule) ∈ standard.statements := by
    rw [split]
    exact List.mem_append_right _ List.mem_cons_self
  simp only [standard, List.mem_cons, Prod.mk.injEq, List.not_mem_nil, or_false] at known
  rcases known with ⟨rfl, -⟩ | ⟨rfl, -⟩ | ⟨rfl, -⟩ | ⟨rfl, -⟩ | ⟨rfl, -⟩ | ⟨rfl, -⟩ <;> rfl

namespace Parser

variable {rest words : List Token} {budget : Nat} {good : Node → Prop}

theorem reads_endOfLine (rest : List Token) :
    Reads endOfLine [layout .newline] rest fun _ => True := by
  refine Reads.after (reads_peek _) fun first heads => ?_
  have bare : first.bare = layout .newline := heads
  have kind : first.bare.kind = .newline := congrArg Token.kind bare
  simp only [show first.kind = .newline from kind]
  exact (reads_next _ rest).before fun _ _ => reads_pure trivial

theorem reads_layout (kind : TokenKind) (rest : List Token) :
    Reads (token kind) [layout kind] rest fun _ => True :=
  (reads_token (layout kind) rest).mono fun _ _ => trivial

theorem reads_line {first : Token} {others : List Token} (opens : first.Opens)
    (reads : Reads (expression .standard budget Precedence.lowest) (first :: others)
      (layout .newline :: rest) good) :
    Reads (statement .standard (budget + 1)) (first :: others ++ [layout .newline]) rest good := by
  rw [statement]
  refine Reads.after (reads_peek _) fun token heads => ?_
  have bare : token.bare = first := heads
  have unruled : (if token.kind = .keyword then Grammar.standard.statement? token.symbol else none) =
      none := by
    have opens' : (Grammar.standard.leading? token.symbol).isSome = true := by
      rw [← Token.symbol_bare, bare]
      exact opens
    cases ruled : Grammar.standard.statement? token.symbol with
    | none => exact ite_self none
    | some rule => rw [Grammar.leading?_of_statement? ruled] at opens'; cases opens'
  simp only [unruled]
  refine Reads.bind reads fun node holds => ?_
  exact (reads_endOfLine rest).before fun _ _ => reads_pure holds

theorem reads_compound {word : String} {rule : StatementRule}
    (known : Grammar.standard.statement? word = some rule)
    (reads : ∀ token : Token, token.bare = keyword word →
      (compound .standard budget rule token).Reads words rest good) :
    Reads (statement .standard (budget + 1)) (keyword word :: words) rest good := by
  rw [statement]
  refine Reads.after (reads_peek _) fun token heads => ?_
  have bare : token.bare = keyword word := heads
  have kind : token.kind = .keyword := congrArg Token.kind bare
  have symbol : token.symbol = word := by
    rw [← Token.symbol_bare, bare]
    rfl
  simp only [kind, if_true, symbol, known]
  exact @Reads.bind _ _ _ _ [keyword word] words rest _ _ (reads_next _ _) reads

theorem reads_pass (rest : List Token) :
    Reads (statement .standard (budget + 2)) [keyword "pass", layout .newline] rest
      fun found => found.bare = .pass default := by
  refine reads_compound rfl fun token heads => ?_
  rw [compound]
  exact (reads_endOfLine rest).before fun _ _ => reads_pure (by rw [Node.bare])

theorem reads_return (rest : List Token) :
    Reads (statement .standard (budget + 2)) [keyword "return", layout .newline] rest
      fun found => found.bare = .result default none := by
  refine reads_compound rfl fun token heads => ?_
  rw [compound]
  refine Reads.after (reads_peek _) fun first ahead => ?_
  have bare : first.bare = layout .newline := ahead
  have kind : first.bare.kind = .newline := congrArg Token.kind bare
  simp only [show first.kind = .newline from kind]
  exact (reads_endOfLine rest).before fun _ _ => reads_pure (by rw [Node.bare])

end Parser

namespace Node

open TabScript.Parser

variable {node : Node} {rest : List Token} {budget : Nat}

theorem reads_words (proper : node.IsExpression) {least : Nat}
    (room : 2 * node.words.length + 1 ≤ budget) (binds : least ≤ Precedence.assignment)
    (stops : pull rest = 0) :
    Reads (expression .standard budget least) node.words rest fun found => found.bare = node.bare :=
  (climbs node proper).reads room (Nat.lt_of_le_of_lt binds (assignment_lt_strength proper))
    (stops ▸ Nat.zero_le _)

theorem reads_value (proper : node.IsExpression) (room : 2 * node.words.length + 3 ≤ budget) :
    Reads (statement .standard budget) (keyword "return" :: (node.words ++ [layout .newline])) rest
      fun found => found.bare = .result default (some node.bare) := by
  obtain ⟨budget, rfl⟩ : ∃ inner, budget = inner + 2 := ⟨budget - 2, by omega⟩
  refine reads_compound rfl fun token heads => ?_
  rw [compound]
  refine Reads.after (reads_peek _) fun first ahead => ?_
  have kinds : first.kind ≠ .newline ∧ first.kind ≠ .dedent ∧ first.kind ≠ .endOfProgram := by
    obtain ⟨word, others, begins, opens⟩ := node.words_cons proper
    rw [begins] at ahead
    obtain rfl : first.bare = word := ahead
    exact opens.starts.layout
  split
  · exact absurd ‹_› kinds.1
  · exact absurd ‹_› kinds.2.1
  · exact absurd ‹_› kinds.2.2
  · refine Reads.bind (reads_words proper (by omega) (Nat.le_refl _) rfl) fun value same => ?_
    exact (reads_endOfLine rest).before fun _ _ => reads_pure (by rw [bare, same])

theorem reads_deletion (proper : node.IsExpression) (subscript : node.tag = .subscript)
    (room : 2 * node.words.length + 3 ≤ budget) :
    Reads (statement .standard budget) (keyword "del" :: (node.words ++ [layout .newline])) rest
      fun found => found.bare = .deletion default node.bare := by
  obtain ⟨budget, rfl⟩ : ∃ inner, budget = inner + 2 := ⟨budget - 2, by omega⟩
  refine reads_compound rfl fun token heads => ?_
  rw [compound]
  refine Reads.bind (reads_words proper (by omega) (Nat.le_refl _) rfl) fun target same => ?_
  have tag : target.tag = .subscript := by rw [← tag_bare, same, tag_bare, subscript]
  simp only [tag, ne_eq, not_true, if_false]
  exact (reads_endOfLine rest).before fun _ _ => reads_pure (by rw [bare, same])

theorem reads_expression (proper : node.IsExpression) (room : 2 * node.words.length + 2 ≤ budget) :
    Reads (statement .standard budget) (node.words ++ [layout .newline]) rest
      fun found => found.bare = node.bare := by
  obtain ⟨budget, rfl⟩ : ∃ inner, budget = inner + 1 := ⟨budget - 1, by omega⟩
  obtain ⟨first, others, begins, opens⟩ := node.words_cons proper
  have whole : Reads (expression .standard budget Precedence.lowest) node.words
      (layout .newline :: rest) fun found => found.bare = node.bare :=
    reads_words proper (by omega) (Nat.zero_le _) rfl
  rw [begins] at whole ⊢
  exact reads_line opens whole

theorem reads_assignment {target value : Node} (assignable : target.isAssignable = true)
    (proper : target.IsExpression) (valueProper : value.IsExpression)
    (room : 2 * (target.words.length + 1 + value.words.length) + 2 ≤ budget) :
    Reads (statement .standard budget) (target.words ++ mark "=" :: (value.words ++ [layout .newline]))
      rest fun found => found.bare = .assignment default target.bare value.bare := by
  obtain ⟨budget, rfl⟩ : ∃ inner, budget = inner + 1 := ⟨budget - 1, by omega⟩
  obtain ⟨first, others, begins, opens⟩ := target.words_cons proper
  have left : Continues budget Precedence.lowest target target.words
      (mark "=" :: (value.words ++ layout .newline :: rest)) :=
    climbs target proper (by omega) (Nat.lt_of_le_of_lt (Nat.zero_le _) (assignment_lt_strength proper))
      (Nat.le_of_lt (assignment_lt_strength proper))
  -- the target is read as an expression first, and the sign behind it makes it a target
  have whole : Continues budget Precedence.lowest (.assignment default target value)
      (target.words ++ mark "=" :: value.words) (layout .newline :: rest) := by
    refine left.join (by omega) rfl (by decide) fun found token later same heads enough => ?_
    obtain ⟨later, rfl⟩ : ∃ inner, later = inner + 1 := ⟨later - 1, by omega⟩
    have found_assignable : found.isAssignable = true := by
      rw [isAssignable, ← tag_bare, same, tag_bare]
      exact assignable
    rw [join]
    simp only [found_assignable, if_true]
    refine (reads_words valueProper (by omega) (Nat.le_refl _) rfl).before fun value' there => ?_
    exact reads_pure (by rw [bare, bare, same, there])
  have reads := whole.reads (by simp only [List.length_append, List.length_cons]; omega) (Nat.le_refl 0)
  rw [begins, List.cons_append] at reads
  have line := reads_line opens reads
  rw [← List.cons_append, ← begins, List.append_assoc, List.cons_append] at line
  exact line.mono fun found same => by rw [same, bare]

def Parses (node : Node) : Prop :=
  ∀ ⦃budget : Nat⦄ ⦃rest : List Token⦄, 2 * node.script.length + 1 ≤ budget → Token.Apart rest →
    Reads (statement .standard budget) node.script rest fun found => found.bare = node.bare

def ParseAll (nodes : List Node) : Prop :=
  ∀ ⦃budget : Nat⦄ ⦃rest : List Token⦄ (ends : TokenKind → Bool) (read : List Node),
    2 * (Node.scripts nodes).length + 2 ≤ budget → Token.Apart rest →
    (∀ token : Token, token.Heads rest → ends token.kind = true) →
    (∀ kind, ends kind = true → kind = .dedent ∨ kind = .endOfProgram) →
    Reads (statements .standard budget ends read) (Node.scripts nodes) rest
      fun found => Node.bareAll found = Node.bareAll read.reverse ++ Node.bareAll nodes

theorem parseAll_nil : ParseAll [] := by
  intro budget rest ends read room apart spent only
  obtain ⟨budget, rfl⟩ : ∃ inner, budget = inner + 1 := ⟨budget - 1, by omega⟩
  rw [statements]
  refine Reads.after (reads_peek _) fun token heads => ?_
  simp only [spent token heads, if_true]
  exact reads_pure (by rw [bareAll, List.append_nil])

theorem parseAll_cons {nodes : List Node} (first : node.Parses) (others : ParseAll nodes)
    (proper : node.IsStatement) (allProper : AreStatements nodes) : ParseAll (node :: nodes) := by
  intro budget rest ends read room apart spent only
  rw [scripts, List.length_append] at room
  obtain ⟨budget, rfl⟩ : ∃ inner, budget = inner + 1 := ⟨budget - 1, by omega⟩
  obtain ⟨word, tail, begins, starts⟩ := node.script_cons proper
  have longer : 0 < node.script.length := by simp [begins]
  have apart' := scripts_apart allProper apart
  rw [statements, scripts]
  refine Reads.after (reads_peek _) fun token heads => ?_
  -- what a statement begins with ends no block
  have goesOn : ends token.kind = false := by
    rw [begins] at heads
    obtain rfl : token.bare = word := heads
    rw [Bool.eq_false_iff]
    intro ended
    exact (only _ ended).elim starts.layout.2.1 starts.layout.2.2
  simp only [goesOn, Bool.false_eq_true, if_false]
  refine Reads.bind (first (by omega) apart') fun found same => ?_
  refine Reads.after (reads_skipNewlines apart'.line) fun _ _ => ?_
  refine (others ends (found :: read) (by omega) apart spent only).mono fun all whole => ?_
  rw [whole, List.reverse_cons, bareAll_append, bareAll, bareAll, bareAll, same, List.append_assoc]
  rfl

end Node

open TabScript.Parser

variable {rest : List Token} {budget : Nat}

namespace Block

def Parses (block : Block) : Prop :=
  ∀ ⦃budget : Nat⦄ (rest : List Token), 2 * block.script.length ≤ budget →
    Reads (Parser.block .standard budget) block.script rest fun found => found.bare = block.bare

theorem parses_of {span : Span} {nodes : List Node}
    (proper : Node.AreStatements nodes) (all : Node.ParseAll nodes) : (Block.of span nodes).Parses := by
  intro budget rest room
  rw [script] at room ⊢
  simp only [List.length_cons, List.length_append, List.length_nil] at room
  obtain ⟨budget, rfl⟩ : ∃ inner, budget = inner + 1 := ⟨budget - 1, by omega⟩
  have apart := Node.scripts_apart proper (Token.apart_dedent rest)
  rw [Parser.block]
  refine @Reads.bind _ _ _ _ [mark ":"] _ _ _ _ (reads_punctuator ":" _) fun colon _ => ?_
  refine @Reads.bind _ _ _ _ [layout .newline] _ _ _ _ (reads_layout .newline _) fun newline _ => ?_
  refine @Reads.bind _ _ _ _ [layout .indent] _ _ _ _ (reads_layout .indent _) fun indent _ => ?_
  have line : ∀ word ∈ ((Node.scripts nodes ++ [layout .dedent]) ++ rest).head?,
      word.kind ≠ .newline := by
    rw [List.append_assoc]
    exact apart.line
  refine Reads.after (reads_skipNewlines line) fun _ _ => ?_
  refine Reads.bind (all _ [] (by omega) (Token.apart_dedent rest) ?_ ?_) fun found same => ?_
  · intro token heads
    have bare : token.bare = layout .dedent := heads
    have kind : token.bare.kind = .dedent := congrArg Token.kind bare
    exact decide_eq_true (.inl kind)
  · intro kind ended
    simpa using ended
  refine (reads_layout .dedent rest).before fun dedent _ => ?_
  exact reads_pure (by rw [bare, bare, same]; rfl)

end Block

namespace Branch

def ParseAll (branches : List Branch) : Prop :=
  ∀ ⦃budget : Nat⦄ ⦃rest : List Token⦄ (read : List Branch),
    2 * (Branch.scripts branches).length + 1 ≤ budget → Token.headIs .keyword "elif" rest = false →
    Reads (Parser.branches .standard budget read) (Branch.scripts branches) rest
      fun found => Branch.bareAll found = Branch.bareAll read.reverse ++ Branch.bareAll branches

theorem bareAll_append (first second : List Branch) :
    Branch.bareAll (first ++ second) = Branch.bareAll first ++ Branch.bareAll second := by
  induction first with
  | nil => rw [bareAll, List.nil_append, List.nil_append]
  | cons branch branches ih =>
    obtain ⟨condition, body⟩ := branch
    rw [List.cons_append, bareAll, bareAll, ih, List.cons_append]

theorem parseAll_nil : ParseAll [] := by
  intro budget rest read room spent
  obtain ⟨budget, rfl⟩ : ∃ inner, budget = inner + 1 := ⟨budget - 1, by omega⟩
  rw [Parser.branches]
  refine Reads.after (reads_atKeyword "elif" _) fun found same => ?_
  obtain rfl : found = false := same.trans spent
  exact reads_pure (by rw [bareAll, List.append_nil])

theorem parseAll_cons {condition : Node} {body : Block} {branches : List Branch}
    (proper : condition.IsExpression) (block : body.Parses) (others : ParseAll branches) :
    ParseAll (.of condition body :: branches) := by
  intro budget rest read room spent
  rw [scripts] at room ⊢
  simp only [List.length_cons, List.length_append] at room
  obtain ⟨budget, rfl⟩ : ∃ inner, budget = inner + 1 := ⟨budget - 1, by omega⟩
  rw [Parser.branches]
  refine Reads.after (reads_atKeyword "elif" _) fun found same => ?_
  obtain rfl : found = true := same
  refine @Reads.bind _ _ _ _ [keyword "elif"] _ _ _ _ (reads_next _ _) fun token _ => ?_
  have colon : ∀ more : List Token, pull (body.script ++ more) = 0 := by
    intro more
    rw [body.script_append]
    rfl
  refine Reads.bind (Node.reads_words proper (by omega) (Nat.le_refl _) (by
    rw [List.append_assoc]
    exact colon _)) fun condition' first => ?_
  refine Reads.bind (block _ (by omega)) fun body' second => ?_
  refine (others (.of condition' body' :: read) (by omega) spent).mono fun found whole => ?_
  rw [whole, List.reverse_cons, bareAll_append, bareAll, bareAll, bareAll, first, second,
    List.append_assoc]
  rfl

end Branch

namespace Node

theorem reads_alternative {block : Block} (parses : block.Parses)
    (room : 2 * block.script.length + 1 ≤ budget) (rest : List Token) :
    Reads (alternative .standard budget) (keyword "else" :: block.script) rest
      fun found => found.map Block.bare = some block.bare := by
  obtain ⟨budget, rfl⟩ : ∃ inner, budget = inner + 1 := ⟨budget - 1, by omega⟩
  rw [alternative]
  refine Reads.after (reads_atKeyword "else" _) fun found same => ?_
  obtain rfl : found = true := same
  refine @Reads.bind _ _ _ _ [keyword "else"] _ _ _ _ (reads_next _ _) fun token _ => ?_
  refine (parses rest (by omega)).before fun found same => ?_
  exact reads_pure (congrArg some same)

theorem reads_noAlternative (room : 0 < budget) (spent : Token.headIs .keyword "else" rest = false) :
    Reads (alternative .standard budget) [] rest fun found => found = none := by
  obtain ⟨budget, rfl⟩ : ∃ inner, budget = inner + 1 := ⟨budget - 1, by omega⟩
  rw [alternative]
  refine Reads.after (reads_atKeyword "else" _) fun found same => ?_
  obtain rfl : found = false := same.trans spent
  exact reads_pure rfl

theorem reads_condition {condition : Node} {body : Block} (proper : condition.IsExpression)
    (room : 2 * condition.words.length + 1 ≤ budget) (more rest : List Token) :
    Reads (expression .standard budget Precedence.assignment) condition.words
      (body.script ++ more ++ rest) fun found => found.bare = condition.bare := by
  refine reads_words proper room (Nat.le_refl _) ?_
  rw [List.append_assoc, body.script_append]
  rfl

theorem parses_loop {span : Span} {condition : Node} {body : Block} (proper : condition.IsExpression)
    (block : body.Parses) : (Node.loop span condition body).Parses := by
  intro budget rest room apart
  rw [script] at room ⊢
  simp only [List.length_cons, List.length_append] at room
  obtain ⟨budget, rfl⟩ : ∃ inner, budget = inner + 2 := ⟨budget - 2, by omega⟩
  refine reads_compound rfl fun token heads => ?_
  rw [compound]
  refine Reads.bind (by simpa using reads_condition proper (by omega) [] rest) fun condition' first => ?_
  refine (block rest (by omega)).before fun body' second => ?_
  exact reads_pure (by rw [bare, bare, first, second])

theorem parses_choice {span : Span} {condition : Node} {body : Block} {others : List Branch}
    (proper : condition.IsExpression) (block : body.Parses) (branches : Branch.ParseAll others) :
    (Node.choice span condition body others none).Parses := by
  intro budget rest room apart
  rw [script] at room ⊢
  simp only [List.length_cons, List.length_append] at room
  obtain ⟨budget, rfl⟩ : ∃ inner, budget = inner + 2 := ⟨budget - 2, by omega⟩
  refine reads_compound rfl fun token heads => ?_
  rw [compound]
  refine Reads.bind (reads_condition proper (by omega) _ rest) fun condition' first => ?_
  refine Reads.bind (block _ (by omega)) fun body' second => ?_
  refine (branches [] (by omega) apart.noBranch).before fun others' third => ?_
  refine Reads.after (reads_noAlternative (by omega) apart.noAlternative) fun found spent => ?_
  obtain rfl : found = none := spent
  exact reads_pure (by rw [bare, bare, first, second, third]; rfl)

theorem parses_choice_alternative {span : Span} {condition : Node} {body last : Block}
    {others : List Branch} (proper : condition.IsExpression) (block : body.Parses)
    (branches : Branch.ParseAll others) (ending : last.Parses) :
    (Node.choice span condition body others (some last)).Parses := by
  intro budget rest room apart
  rw [script] at room ⊢
  simp only [List.length_cons, List.length_append] at room
  obtain ⟨budget, rfl⟩ : ∃ inner, budget = inner + 2 := ⟨budget - 2, by omega⟩
  refine reads_compound rfl fun token heads => ?_
  rw [compound]
  refine Reads.bind (reads_condition proper (by omega) _ rest) fun condition' first => ?_
  refine Reads.bind (block _ (by omega)) fun body' second => ?_
  refine Reads.bind (branches [] (by omega) rfl) fun others' third => ?_
  refine (reads_alternative ending (by omega) rest).before fun found same => ?_
  obtain ⟨last', rfl, fourth⟩ := Option.map_eq_some_iff.1 same
  exact reads_pure (by rw [bare, bare, first, second, third, fourth]; rfl)

abbrev parameterWords (parameters : List String) : List Token :=
  commas (parameters.map fun parameter => [name parameter])

theorem reads_parameter {parameter : String} {read : List String} {more : List Token}
    {good : List String → Prop} (new : read.contains parameter = false)
    (others : Reads (do
      match ← punctuator? "," with
      | some _ => Parser.parameters budget (parameter :: read)
      | none => return (parameter :: read).reverse) more rest good) :
    Reads (Parser.parameters (budget + 1) read) (name parameter :: more) rest good := by
  rw [Parser.parameters]
  refine Reads.after (reads_atPunctuator ")" _) fun found same => ?_
  obtain rfl : found = false := same
  simp only [Bool.false_eq_true, if_false]
  refine @Reads.bind _ _ _ _ [name parameter] more _ _ _ (reads_token (name parameter) _)
    fun token bare => ?_
  have text : token.text? = some parameter := congrArg Token.text? (show token.bare = _ from bare)
  simp only [text, Option.getD_some, new, Bool.false_eq_true, if_false]
  exact others

theorem reads_parameters {parameters : List String} (read : List String)
    (distinct : (read.reverse ++ parameters).Nodup)
    (room : 2 * (parameterWords parameters).length + 1 ≤ budget) :
    Reads (Parser.parameters budget read) (parameterWords parameters) (mark ")" :: rest)
      fun found => found = read.reverse ++ parameters := by
  induction parameters generalizing budget read with
  | nil =>
    obtain ⟨budget, rfl⟩ : ∃ inner, budget = inner + 1 := ⟨budget - 1, by omega⟩
    rw [Parser.parameters]
    refine Reads.after (reads_atPunctuator ")" _) fun found same => ?_
    obtain rfl : found = true := same
    exact reads_pure (List.append_nil _).symm
  | cons parameter parameters ih =>
    obtain ⟨budget, rfl⟩ : ∃ inner, budget = inner + 1 := ⟨budget - 1, by omega⟩
    have shifted : read.reverse ++ parameter :: parameters =
        (parameter :: read).reverse ++ parameters := by simp
    -- a name that is given a second time would be refused here
    have new : read.contains parameter = false := by
      rw [List.nodup_append] at distinct
      rw [Bool.eq_false_iff, ne_eq, List.contains_iff_mem]
      exact fun inside => distinct.2.2 parameter (List.mem_reverse.2 inside) parameter
        List.mem_cons_self rfl
    cases parameters with
    | nil =>
      refine reads_parameter new ?_
      refine Reads.after (reads_punctuator?_none rfl) fun found spent => ?_
      obtain rfl : found = none := spent
      exact reads_pure (List.reverse_cons)
    | cons second parameters =>
      refine reads_parameter new ?_
      refine @Reads.bind _ _ _ _ [mark ","] _ _ _ _ (reads_punctuator?_some "," _) fun found known => ?_
      obtain ⟨token, rfl, -⟩ := known
      rw [shifted] at distinct ⊢
      refine ih (parameter :: read) distinct ?_
      have split : parameterWords (parameter :: second :: parameters) =
          name parameter :: mark "," :: parameterWords (second :: parameters) := rfl
      rw [split, List.length_cons, List.length_cons] at room
      omega

theorem parses_definition {span : Span} {word : String} {parameters : List String} {body : Block}
    (distinct : parameters.Nodup) (block : body.Parses) :
    (Node.definition span word parameters body).Parses := by
  intro budget rest room apart
  rw [script] at room ⊢
  simp only [List.length_cons, List.length_append] at room
  obtain ⟨budget, rfl⟩ : ∃ inner, budget = inner + 2 := ⟨budget - 2, by omega⟩
  refine reads_compound rfl fun token heads => ?_
  rw [compound]
  refine @Reads.bind _ _ _ _ [name word] _ _ _ _ (reads_token (name word) _) fun named bare_ => ?_
  have text : named.text? = some word := congrArg Token.text? (show named.bare = _ from bare_)
  refine @Reads.bind _ _ _ _ [mark "("] _ _ _ _ (reads_punctuator "(" _) fun _ _ => ?_
  have enough : 2 * (parameterWords parameters).length + 1 ≤ budget := by
    rw [parameterWords]
    omega
  refine Reads.bind (reads_parameters [] distinct enough) fun names same => ?_
  refine @Reads.bind _ _ _ _ [mark ")"] _ _ _ _ (reads_punctuator ")" _) fun _ _ => ?_
  refine (block rest (by omega)).before fun body' second => ?_
  obtain rfl : names = parameters := same
  exact reads_pure (by rw [bare, bare, second, text]; rfl)

mutual

theorem parses : ∀ node : Node, node.IsStatement → node.Parses
  | .assignment _ target value, proper => by
    rw [IsStatement] at proper
    intro budget rest room apart
    rw [script] at room ⊢
    simp only [List.length_append, List.length_cons, List.length_nil] at room
    rw [bare]
    exact reads_assignment proper.1 proper.2.1 proper.2.2 (by omega)
  | .choice _ condition body others none, proper => by
    rw [IsStatement] at proper
    exact parses_choice proper.1 (blockParses body proper.2.1) (branchesParse others proper.2.2)
  | .choice _ condition body others (some last), proper => by
    rw [IsStatement] at proper
    exact parses_choice_alternative proper.1 (blockParses body proper.2.1)
      (branchesParse others proper.2.2.1) (blockParses last proper.2.2.2)
  | .loop _ condition body, proper => by
    rw [IsStatement] at proper
    exact parses_loop proper.1 (blockParses body proper.2)
  | .definition _ word parameters body, proper => by
    rw [IsStatement] at proper
    exact parses_definition proper.2.2.1 (blockParses body proper.2.2.2)
  | .result _ none, _ => by
    intro budget rest room apart
    rw [script] at room ⊢
    simp only [List.length_cons, List.length_nil] at room
    obtain ⟨budget, rfl⟩ : ∃ inner, budget = inner + 2 := ⟨budget - 2, by omega⟩
    rw [bare]
    exact reads_return rest
  | .result _ (some value), proper => by
    rw [IsStatement] at proper
    intro budget rest room apart
    rw [script] at room ⊢
    simp only [List.length_cons, List.length_append, List.length_nil] at room
    rw [bare]
    exact reads_value proper (by omega)
  | .pass _, _ => by
    intro budget rest room apart
    rw [script] at room ⊢
    simp only [List.length_cons, List.length_nil] at room
    obtain ⟨budget, rfl⟩ : ∃ inner, budget = inner + 2 := ⟨budget - 2, by omega⟩
    rw [bare]
    exact reads_pass rest
  | .deletion _ target, proper => by
    rw [IsStatement] at proper
    intro budget rest room apart
    rw [script] at room ⊢
    simp only [List.length_cons, List.length_append, List.length_nil] at room
    rw [bare]
    exact reads_deletion proper.2 proper.1 (by omega)
  | .literal .., proper | .identifier .., proper | .unary .., proper | .binary .., proper
  | .call .., proper | .element .., proper | .slice .., proper | .array .., proper => by
    intro budget rest room apart
    change 2 * (words _ ++ [layout .newline]).length + 1 ≤ budget at room
    rw [List.length_append, List.length_singleton] at room
    exact reads_expression proper (by omega)

theorem parseAll : ∀ nodes : List Node, AreStatements nodes → ParseAll nodes
  | [], _ => parseAll_nil
  | node :: nodes, proper =>
    parseAll_cons (parses node proper.1) (parseAll nodes proper.2) proper.1 proper.2

theorem blockParses : ∀ block : Block, block.IsWritten → block.Parses
  | .of _ statements, proper => Block.parses_of proper.2 (parseAll statements proper.2)

theorem branchesParse : ∀ branches : List Branch, Branch.AreWritten branches → Branch.ParseAll branches
  | [], _ => Branch.parseAll_nil
  | .of condition body :: branches, proper => by
    rw [Branch.AreWritten] at proper
    exact Branch.parseAll_cons proper.1 (blockParses body proper.2.1) (branchesParse branches proper.2.2)

end

end Node

theorem Laid.kind_ne {depth : Nat} {lines : List Line} {words : List Token}
    (laid : Laid depth lines words) : ∀ word ∈ words, word.kind ≠ .endOfProgram := by
  have dedents : ∀ count, ∀ word ∈ List.replicate count (layout .dedent), word.kind ≠ .endOfProgram := by
    intro count word inside
    obtain ⟨-, rfl⟩ := List.mem_replicate.1 inside
    nofun
  have line : ∀ {line : Line} {words : List Token}, line.Writable →
      (∀ word ∈ words, word.kind ≠ .endOfProgram) →
      ∀ word ∈ line.tokens ++ layout .newline :: words, word.kind ≠ .endOfProgram := by
    intro line words writable rest
    rw [List.forall_mem_append, List.forall_mem_cons]
    exact ⟨fun word inside => (writable.2 word inside).kind_ne.2.2, nofun, rest⟩
  induction laid with
  | done depth => exact dedents depth
  | further within writable laid ih =>
    rw [List.forall_mem_append]
    exact ⟨dedents _, line writable ih⟩
  | deeper opened writable laid ih =>
    rw [List.forall_mem_cons]
    exact ⟨nofun, line writable ih⟩

theorem Laid.writable {depth : Nat} {lines : List Line} {words : List Token}
    (laid : Laid depth lines words) : ∀ line ∈ lines, line.Writable := by
  induction laid with
  | done => exact fun _ inside => absurd inside List.not_mem_nil
  | further _ writable _ ih | deeper _ writable _ ih =>
    rw [List.forall_mem_cons]
    exact ⟨writable, ih⟩

namespace Block

def IsProgram (program : Block) : Prop := Node.AreStatements program.statements

def numbers (program : Block) : List Float :=
  (program.lines 0).flatMap fun line => line.tokens.filterMap fun token =>
    match token.value with
    | some (.number number) => some number
    | _ => none

theorem tokenize_printed {program : Block} (proper : program.IsProgram)
    (again : ∀ number ∈ program.numbers, Number.ReadsBack number) :
    ∃ tokens, tokenize program.printed = .ok tokens ∧
      (Cursor.ofTokens tokens).Ahead (Node.scripts program.statements) := by
  have shallow : Line.Shallow 0 [] := fun _ => nofun
  have laid := Node.laid_all program.statements proper shallow (.done 0)
  simp only [List.replicate_zero, List.append_nil] at laid
  have lines : program.lines 0 = Node.linesAll 0 program.statements := by
    obtain ⟨span, statements⟩ := program
    rw [Block.lines, Block.statements]
  have rereads : ∀ line ∈ Node.linesAll 0 program.statements, ∀ token ∈ line.tokens, token.Rereads := by
    intro line inside token within
    refine ((laid.writable line inside).2 token within).rereads fun number same => again number ?_
    rw [numbers, lines]
    exact List.mem_flatMap.2 ⟨line, inside, List.mem_filterMap.2 ⟨token, within, same ▸ rfl⟩⟩
  have first : Line.Shallow 0 (Node.linesAll 0 program.statements) := by
    simpa using Node.linesAll_shallow shallow program.statements
  obtain ⟨tokens, read, bare⟩ := @Laid.tokens _ _ _ laid rereads (Lexer.ofString program.printed) rfl
    (by rw [printed, lines]; exact String.toList_ofList) rfl (fun _ => nofun) fun _ => first
  exact ⟨tokens, read, Cursor.ahead_ofTokens bare laid.kind_ne⟩

theorem reads_program {program : Block} (proper : program.IsProgram) {cursor : Cursor}
    (ahead : cursor.Ahead (Node.scripts program.statements)) :
    ∃ found after, Parser.program .standard cursor = .ok (found, after) ∧ found.bare = program.bare := by
  have count : cursor.upcoming.length = (Node.scripts program.statements).length := by
    rw [← ahead.upcoming, List.length_map]
  have apart : Token.Apart (Node.scripts program.statements ++ []) :=
    Node.scripts_apart proper Token.apart_nil
  rw [List.append_nil] at apart
  have all : Reads (Parser.statements .standard (budgetFor cursor.upcoming.length)
      (fun kind => kind = .endOfProgram) []) (Node.scripts program.statements) []
      fun found => Node.bareAll found = Node.bareAll [].reverse ++ Node.bareAll program.statements :=
    Node.parseAll program.statements proper _ [] (by rw [budgetFor, count]; omega) Token.apart_nil
      (fun token ended => decide_eq_true (show token.kind = .endOfProgram from ended))
      fun kind ended => .inr (of_decide_eq_true ended)
  obtain ⟨found, after, reached, same, behind⟩ := all cursor.skipNewlines (by
    rw [List.append_nil]
    exact ahead.skipNewlines apart.line)
  refine ⟨.of (spanOf found (.point after.peek.span.start)) found, after, ?_, ?_⟩
  · change (Parser.statements .standard (budgetFor cursor.upcoming.length) (fun kind => kind = .endOfProgram) []
      cursor.skipNewlines >>= fun pair =>
        (Except.ok (Block.of (spanOf pair.1 (.point pair.2.peek.span.start)) pair.1, pair.2) :
          Except Fault (Block × Cursor))) = _
    rw [reached]
    rfl
  · obtain ⟨span, nodes⟩ := program
    rw [Block.bare, Block.bare, same]
    rfl

/-- A program that is written out is read again as the same tree, but for the places of its parts. All
that is assumed of numbers is that the digits written for them are read as the same number. -/
theorem parse_printed {program : Block} (proper : program.IsProgram)
    (again : ∀ number ∈ program.numbers, Number.ReadsBack number) :
    ∃ found, parse program.printed = .ok found ∧ found.bare = program.bare := by
  obtain ⟨tokens, read, ahead⟩ := tokenize_printed proper again
  obtain ⟨found, after, reached, same⟩ := reads_program proper ahead
  refine ⟨found, ?_, same⟩
  rw [parse, read]
  change (Parser.program .standard (.ofTokens tokens)).map Prod.fst = _
  rw [reached]
  rfl

def choosing : Block :=
  .of default [
    .definition default "f" ["x"] (.of default [
      .choice default (.unary default .negate default
          (.binary default .less default (.identifier default "x") (.literal default (some (.number 1.5)))))
        (.of default [.result default (some (.binary default .power default
          (.unary default .subtract default (.identifier default "x")) (.identifier default "x")))])
        [.of (.literal default none) (.of default [.pass default])]
        (some (.of default [.deletion default
          (.element default (.identifier default "x") (.identifier default "x"))]))]),
    .assignment default (.identifier default "y")
      (.call default (.identifier default "f") [.literal default (some (.text "\n\""))])]

/-- The operand of the negation and the base of the power are written in parentheses, and the text with
escapes. -/
theorem parse_printed_choosing :
    choosing.IsProgram ∧ (∀ number ∈ choosing.numbers, Number.ReadsBack number) ∧
      choosing.numbers = [1.5] ∧
      ∃ found, parse choosing.printed = .ok found ∧ found.bare = choosing.bare := by
  have named : ∀ word ∈ ["f", "x", "y"], Token.IsName word := by
    intro word inside
    simp only [List.mem_cons, List.not_mem_nil, or_false] at inside
    rcases inside with rfl | rfl | rfl <;>
    exact ⟨⟨_, _, rfl, rfl, List.all_eq_true.1 rfl⟩, by decide, by decide, by decide⟩
  have x := named "x" (by decide)
  have text : (Literal.text "\n\"").Writable := by
    intro character inside
    have known : character = '\n' ∨ character = '"' := by simpa using inside
    rcases known with rfl | rfl <;> rfl
  have proper : choosing.IsProgram := by
    simp only [IsProgram, choosing, statements, Node.AreStatements, Node.IsStatement, IsWritten,
      Branch.AreWritten, Node.IsExpression, Node.AreExpressions]
    have number : (Literal.number 1.5).Writable := ⟨_, rfl⟩
    refine ⟨⟨named "f" (by decide), by simpa using x, by decide, nofun, ⟨⟨rfl, rfl, x, number⟩,
      ⟨nofun, ⟨rfl, ⟨rfl, x⟩, x⟩, trivial⟩, ⟨trivial, ⟨nofun, trivial, trivial⟩, trivial⟩,
      nofun, ⟨rfl, x, x⟩, trivial⟩, trivial⟩, ⟨rfl, named "y" (by decide), named "f" (by decide),
      text, trivial⟩, trivial⟩
  have numbers : choosing.numbers = [1.5] := by rfl
  have again : ∀ number ∈ choosing.numbers, Number.ReadsBack number := by
    rw [numbers, List.forall_mem_singleton, Number.ReadsBack]
    rfl
  exact ⟨proper, again, numbers, parse_printed proper again⟩

end Block

end TabScript
