import TabScript.Proofs.Spelling.Expressions

/-! Statements, blocks and programs are read from their tokens.

Every token of a program is taken, in order and once. The tokens that end lines and those that open and
close blocks stand where the statements and the blocks of the tree end and begin. -/

set_option autoImplicit false

namespace TabScript

open Token (mark keyword name layout essential commas)

def StatementRule.word : StatementRule → String
  | .choice => "if"
  | .loop => "while"
  | .definition => "def"
  | .result => "return"
  | .pass => "pass"
  | .deletion => "del"

theorem Grammar.statement?_word {symbol : String} {rule : StatementRule}
    (known : standard.statement? symbol = some rule) : symbol = rule.word := by
  have all : ∀ entry ∈ standard.statements, entry.1 = entry.2.word := by decide
  obtain ⟨before, after, entries, -⟩ := List.lookup_eq_some_iff.1 known
  exact all (symbol, rule) (by rw [entries]; simp)

namespace Token

/-- What remains of the tokens taken, where no operand ends in front of them, are these ones, and none ends
behind them either. -/
def Remains (taken words : List Token) : Prop :=
  ∀ lists rest, essential false lists (taken ++ rest) = words ++ essential false lists rest

def States (taken : List Token) (node : Node) : Prop := Remains taken (node.spelling ++ node.stop)

def Completes (first : String) (taken : List Token) (node : Node) : Prop :=
  ∃ words, node.spelling ++ node.stop = keyword first :: words ∧ Remains taken words

def Encloses (taken : List Token) (block : Block) : Prop :=
  ∀ ended lists rest, essential ended lists (taken ++ rest) =
    block.spelling ++ essential false lists rest

def Names (taken : List Token) (names : List String) : Prop :=
  ∀ closing, closing.is .punctuator ")" = true →
    Lists ")" (taken ++ [closing]) (names.map (Node.identifier default))

theorem remains_nil : Remains [] [] := fun _ _ => rfl

theorem Remains.append {taken more words others : List Token} (first : Remains taken words)
    (second : Remains more others) : Remains (taken ++ more) (words ++ others) := by
  intro lists rest
  rw [List.append_assoc, first, second, List.append_assoc]

theorem Remains.keyword {first : Token} {word : String} {taken words : List Token}
    (found : first.is .keyword word = true) (other : word ≠ "None") (behind : Remains taken words) :
    Remains (first :: taken) (keyword word :: words) := by
  intro lists rest
  rw [List.cons_append, essential_keyword found other, behind, List.cons_append]

theorem essential_structural {token : Token} (kind : token.kind = .newline ∨ token.kind = .indent ∨
    token.kind = .dedent) (lexed : token.Lexed) (ended : Bool) (lists : List Bool) (rest : List Token) :
    essential ended lists (token :: rest) = layout token.kind :: essential false lists rest := by
  have other : token.kind.isContent = false := by
    rcases kind with same | same | same <;> rw [same] <;> rfl
  rw [essential_layout kind, Parser.plain_layout lexed other]

theorem Completes.states {first : Token} {word : String} {taken : List Token} {node : Node}
    (found : first.is .keyword word = true) (other : word ≠ "None") (completed : Completes word taken node) :
    States (first :: taken) node := by
  obtain ⟨words, spelled, remains⟩ := completed
  rw [States, spelled]
  exact remains.keyword found other

/-! Simple statements. -/

section
variable {ending : Token} {taken : List Token} {node : Node} (kind : ending.kind = .newline)
  (lexed : ending.Lexed)
include kind lexed

theorem remains_end : Remains [ending] [layout .newline] := by
  intro lists rest
  rw [List.singleton_append, essential_structural (.inl kind) lexed, kind]
  rfl

theorem Expresses.ended (one : Expresses taken node) :
    Remains (taken ++ [ending]) (node.spelling ++ [layout .newline]) := by
  intro lists rest
  rw [List.append_assoc, one.remains, List.singleton_append, essential_structural (.inl kind) lexed, kind,
    List.append_assoc]
  rfl

theorem Expresses.states (one : Expresses taken node) : States (taken ++ [ending]) node := by
  rw [States, Node.stop_of_simple one.simple]
  exact one.ended kind lexed

theorem completes_pass (span : Span) : Completes "pass" [ending] (.pass span) :=
  ⟨_, rfl, remains_end kind lexed⟩

theorem completes_result (span : Span) : Completes "return" [ending] (.result span none) :=
  ⟨_, rfl, remains_end kind lexed⟩

theorem Expresses.result (value : Expresses taken node) (span : Span) :
    Completes "return" (taken ++ [ending]) (.result span (some node)) :=
  ⟨_, rfl, value.ended kind lexed⟩

theorem Expresses.deletion (target : Expresses taken node) (span : Span) :
    Completes "del" (taken ++ [ending]) (.deletion span node) :=
  ⟨_, rfl, target.ended kind lexed⟩

end

/-! Statements with blocks. -/

section
variable {taken inner further last : List Token} {condition : Node} {body : Block}

theorem Expresses.guards (asked : Expresses taken condition) (guarded : Encloses inner body) :
    Remains (taken ++ inner) (condition.spelling ++ body.spelling) := by
  intro lists rest
  rw [List.append_assoc, asked.remains, guarded, List.append_assoc]

theorem Expresses.loop (asked : Expresses taken condition) (repeated : Encloses inner body) (span : Span) :
    Completes "while" (taken ++ inner) (.loop span condition body) :=
  ⟨_, List.append_nil _, asked.guards repeated⟩

theorem Expresses.choice {branches : List Branch} {otherwise : Option Block}
    (asked : Expresses taken condition) (guarded : Encloses inner body)
    (others : Remains further (Branch.spelling branches)) (ends : Remains last (Block.alternative otherwise))
    (span : Span) : Completes "if" (taken ++ (inner ++ (further ++ last)))
      (.choice span condition body branches otherwise) := by
  refine ⟨_, (List.append_nil _).trans (Node.spelling_choice ..), ?_⟩
  have whole := (asked.guards guarded).append (others.append ends)
  simpa only [List.append_assoc] using whole

theorem Expresses.branch {first : Token} {branches : List Branch} (found : first.is .keyword "elif" = true)
    (asked : Expresses taken condition) (guarded : Encloses inner body)
    (others : Remains further (Branch.spelling branches)) :
    Remains (first :: (taken ++ (inner ++ further))) (Branch.spelling (.of condition body :: branches)) := by
  have behind := (asked.guards guarded).append others
  rw [List.append_assoc, List.append_assoc] at behind
  exact behind.keyword found (by decide)

/-- A colon, the end of the line and what opens the block stand in front of its statements, and what closes
it behind them. -/
theorem encloses_block {colon newline indent dedent : Token} {nodes : List Node}
    (found : colon.is .punctuator ":" = true) (line : newline.kind = .newline ∧ newline.Lexed)
    (opens : indent.kind = .indent ∧ indent.Lexed) (statements : Remains inner (Node.sentences nodes))
    (closes : dedent.kind = .dedent ∧ dedent.Lexed) (span : Span) :
    Encloses (colon :: newline :: indent :: (inner ++ [dedent])) (.of span nodes) := by
  intro ended lists rest
  simp only [List.cons_append, List.append_assoc, List.nil_append, Block.spelling]
  rw [essential_sign found (by decide), plain_of_is found (by decide),
    essential_structural (.inl line.1) line.2, line.1,
    essential_structural (.inr (.inl opens.1)) opens.2, opens.1, statements,
    essential_structural (.inr (.inr closes.1)) closes.2, closes.1]
  rfl

end

/-! Parameters. -/

theorem spellings_names (names : List String) :
    Node.spellings (names.map (Node.identifier default)) = names.map fun parameter => [name parameter] := by
  induction names with
  | nil => rfl
  | cons word names ih =>
    rw [List.map_cons, List.map_cons, Node.spellings, ih]
    rfl

theorem names_nil : Names [] [] := fun _ found => lists_nil (.inl rfl) found

section
variable {parameter : Token} (kind : parameter.kind = .identifier) (lexed : parameter.Lexed)
include kind lexed

theorem bare_identifier : parameter.bare = name (parameter.text?.getD "") := by
  obtain ⟨found, value, span⟩ := parameter
  obtain rfl : found = .identifier := kind
  cases value with
  | none => exact lexed.elim
  | some literal =>
    cases literal with
    | text word => rfl
    | _ => exact lexed.elim

theorem expresses_parameter :
    Expresses [parameter] (.identifier default (parameter.text?.getD "")) := by
  have atom : parameter.IsAtom := .inl kind
  refine ⟨rfl, ⟨parameter, [], rfl, atom.isWord.closes⟩, fun lists rest => ?_⟩
  rw [List.singleton_append, essential_atom atom, bare_identifier kind lexed]
  rfl

theorem names_one : Names [parameter] [parameter.text?.getD ""] := by
  intro closing found
  exact (expresses_parameter kind lexed).last (.inl rfl) found

theorem Names.separated {comma : Token} {more : List Token} {names : List String}
    (found : comma.is .punctuator "," = true) (others : Names more names) :
    Names (parameter :: comma :: more) (parameter.text?.getD "" :: names) := by
  intro closing ends
  exact (expresses_parameter kind lexed).separated found (others closing ends)

theorem Names.definition {opening closing : Token} {listed inner : List Token} {names : List String}
    {body : Block} (opens : opening.is .punctuator "(" = true) (given : Names listed names)
    (closes : closing.is .punctuator ")" = true) (runs : Encloses inner body) (span : Span) :
    Completes "def" (parameter :: opening :: (listed ++ closing :: inner))
      (.definition span (parameter.text?.getD "") names body) := by
  refine ⟨_, List.append_nil _, fun lists rest => ?_⟩
  have behind := (given closing closes).remains lists (inner ++ rest)
  rw [List.append_assoc, List.singleton_append, spellings_names, runs] at behind
  rw [List.cons_append, essential_atom (.inl kind), bare_identifier kind lexed, List.cons_append,
    essential_call opens, List.append_assoc, List.cons_append, behind]
  simp only [List.cons_append, List.append_assoc]

end

end Token

namespace Parser

open Token (Expresses Remains States Completes Encloses Names)

theorem takes_parameters : ∀ (budget : Nat) (read : List String),
    Takes Inside (parameters budget read) fun names taken cursor =>
      (∃ more, names = read.reverse ++ more ∧ Names taken more) ∧ Inside cursor
  | 0, _ => by
    rw [parameters]
    exact takes_exhausted
  | budget + 1, read => by
    rw [parameters]
    refine takes_atPunctuator.bind fun closing taken => .given ?_
    rintro rfl
    split
    · exact takes_pure fun _ ready => ⟨⟨[], (List.append_nil _).symm, Token.names_nil⟩, ready.2⟩
    · refine (takes_token (by decide)).bind fun parameter taken => .given ?_
      rintro ⟨rfl, kind, lexed⟩
      dsimp only
      split
      · exact takes_failed
      -- as in a list of expressions, a comma may be followed by what closes the list
      · refine takes_punctuator?.bind fun comma between => ?_
        cases comma with
        | some comma =>
          refine .given ?_
          rintro ⟨rfl, found⟩
          refine (takes_parameters budget _).mono fun names more cursor => ?_
          rintro ⟨⟨others, same, further⟩, inside⟩
          refine ⟨⟨parameter.text?.getD "" :: others, ?_, further.separated kind lexed found⟩, inside⟩
          rw [same, List.reverse_cons, List.append_assoc, List.singleton_append]
        | none =>
          refine .given ?_
          rintro rfl
          refine takes_pure fun _ ready => ⟨⟨[parameter.text?.getD ""], ?_, ?_⟩, ready.2⟩
          · rw [List.reverse_cons]
          · exact Token.names_one kind lexed

-- A statement is begun with any token in front and leaves the cursor behind the end of a line or of a
-- block, where no further end of a line is skipped.
mutual

theorem takes_statement : ∀ {pre : Cursor → Prop} (budget : Nat),
    Takes pre (statement .standard budget) fun node taken cursor => States taken node ∧ Outside cursor
  | _, 0 => by
    rw [statement]
    exact takes_exhausted
  | _, budget + 1 => by
    rw [statement]
    refine takes_peek.bind fun first taken => .given ?_
    rintro rfl
    dsimp only
    split
    · refine (takes_expression budget _).bind fun node taken => .given fun one => ?_
      refine takes_endOfLine.bind fun _ last => .given ?_
      rintro ⟨ending, rfl, kind, lexed⟩
      exact takes_pure fun _ outside => ⟨one.states kind lexed, outside⟩
    · rename_i rule known
      split at known
      · rename_i reserved
        refine (takes_next (by simp [reserved])).bind fun word taken => .given ?_
        rintro ⟨rfl, rfl, lexed⟩
        rw [reserved]
        refine (takes_compound budget rule word).mono fun node taken cursor => ?_
        rintro ⟨completed, outside⟩
        have found : word.is .keyword rule.word = true :=
          lexed.is_keyword (Grammar.statement?_word known) (by cases rule <;> decide)
        exact ⟨completed.states found (by cases rule <;> decide), outside⟩
      · cases known

theorem takes_compound : ∀ (budget : Nat) (rule : StatementRule) (first : Token),
    Takes Inside (compound .standard budget rule first) fun node taken cursor =>
      Completes rule.word taken node ∧ Outside cursor
  | 0, _, _ => by
    rw [compound]
    exact takes_exhausted
  | budget + 1, .choice, first => by
    rw [compound]
    refine (takes_expression budget _).bind fun condition taken => .given fun asked => ?_
    refine (takes_block budget).bind fun body inner => .given fun guarded => ?_
    refine (takes_branches budget []).bind fun others further => .given ?_
    rintro ⟨branches, rfl, listed⟩
    refine (takes_alternative budget).bind fun otherwise last => .given fun ends => ?_
    refine takes_pure fun _ outside => ⟨?_, outside⟩
    rw [List.append_nil]
    exact asked.choice guarded listed ends _
  | budget + 1, .loop, first => by
    rw [compound]
    refine (takes_expression budget _).bind fun condition taken => .given fun asked => ?_
    refine (takes_block budget).bind fun body inner => .given fun repeated => ?_
    refine takes_pure fun _ outside => ⟨?_, outside⟩
    rw [List.append_nil]
    exact asked.loop repeated _
  | budget + 1, .definition, first => by
    rw [compound]
    refine (takes_token (by decide)).bind fun word taken => .given ?_
    rintro ⟨rfl, kind, lexed⟩
    refine takes_punctuator.bind fun opening taken => .given ?_
    rintro ⟨rfl, opens⟩
    refine (takes_parameters budget []).bind fun names listed => .given ?_
    rintro ⟨parameters, rfl, given⟩
    refine takes_punctuator.bind fun closing taken => .given ?_
    rintro ⟨rfl, closes⟩
    refine (takes_block budget).bind fun body inner => .given fun runs => ?_
    refine takes_pure fun _ outside => ⟨?_, outside⟩
    rw [List.append_nil]
    exact given.definition kind lexed opens closes runs _
  | budget + 1, .result, first => by
    rw [compound]
    refine takes_peek.bind fun next taken => .given ?_
    rintro rfl
    -- all three kinds of layout are left to the end of the line
    have bare : Takes (fun cursor => next = cursor.peek ∧ Inside cursor)
        (endOfLine >>= fun _ => pure (.result first.span none)) fun node taken cursor =>
          Completes "return" taken node ∧ Outside cursor := by
      refine (takes_endOfLine.weaken fun _ ready => ready.2).bind fun _ last => .given ?_
      rintro ⟨ending, rfl, kind, lexed⟩
      exact takes_pure fun _ outside => ⟨Token.completes_result kind lexed _, outside⟩
    split
    · exact bare
    · exact bare
    · exact bare
    · refine (takes_expression budget _).bind fun value taken => .given fun one => ?_
      refine takes_endOfLine.bind fun _ last => .given ?_
      rintro ⟨ending, rfl, kind, lexed⟩
      exact takes_pure fun _ outside => ⟨one.result kind lexed _, outside⟩
  | budget + 1, .pass, first => by
    rw [compound]
    refine takes_endOfLine.bind fun _ last => .given ?_
    rintro ⟨ending, rfl, kind, lexed⟩
    exact takes_pure fun _ outside => ⟨Token.completes_pass kind lexed _, outside⟩
  | budget + 1, .deletion, first => by
    rw [compound]
    refine (takes_expression budget _).bind fun target taken => .given fun one => ?_
    dsimp only
    split
    · exact takes_failed
    · refine takes_endOfLine.bind fun _ last => .given ?_
      rintro ⟨ending, rfl, kind, lexed⟩
      exact takes_pure fun _ outside => ⟨one.deletion kind lexed _, outside⟩

theorem takes_branches : ∀ (budget : Nat) (read : List Branch),
    Takes Outside (branches .standard budget read) fun found taken cursor =>
      (∃ more, found = read.reverse ++ more ∧ Remains taken (Branch.spelling more)) ∧ Outside cursor
  | 0, _ => by
    rw [branches]
    exact takes_exhausted
  | budget + 1, read => by
    rw [branches]
    refine takes_atKeyword.bind fun another taken => .given ?_
    rintro rfl
    cases another with
    | true =>
      refine (takes_is rfl).bind fun first taken => .given ?_
      rintro ⟨rfl, found⟩
      refine (takes_expression budget _).bind fun condition taken => .given fun asked => ?_
      refine (takes_block budget).bind fun body inner => .given fun guarded => ?_
      refine (takes_branches budget (.of condition body :: read)).mono fun result further cursor => ?_
      rintro ⟨⟨others, same, listed⟩, outside⟩
      have spelled := asked.branch found guarded listed
      refine ⟨⟨.of condition body :: others, ?_, spelled⟩, outside⟩
      rw [same, List.reverse_cons, List.append_assoc, List.singleton_append]
    | false =>
      exact takes_pure fun _ ready => ⟨⟨[], (List.append_nil _).symm, Token.remains_nil⟩, ready.2⟩

theorem takes_alternative : ∀ budget : Nat,
    Takes Outside (alternative .standard budget) fun found taken cursor =>
      Remains taken (Block.alternative found) ∧ Outside cursor
  | 0 => by
    rw [alternative]
    exact takes_exhausted
  | budget + 1 => by
    rw [alternative]
    refine takes_atKeyword.bind fun found taken => .given ?_
    rintro rfl
    cases found with
    | true =>
      refine (takes_is rfl).bind fun first taken => .given ?_
      rintro ⟨rfl, found⟩
      refine (takes_block budget).bind fun body inner => .given fun guarded => ?_
      refine takes_pure fun _ outside => ⟨?_, outside⟩
      rw [List.append_nil]
      exact Token.Remains.keyword found (by decide) (guarded false)
    | false => exact takes_pure fun _ ready => ⟨Token.remains_nil, ready.2⟩

theorem takes_block : ∀ {pre : Cursor → Prop} (budget : Nat),
    Takes pre (block .standard budget) fun found taken cursor => Encloses taken found ∧ Outside cursor
  | _, 0 => by
    rw [block]
    exact takes_exhausted
  | _, budget + 1 => by
    rw [block]
    refine takes_punctuator.bind fun colon taken => .given ?_
    rintro ⟨rfl, found⟩
    refine (takes_token (by decide)).bind fun newline taken => .given ?_
    rintro ⟨rfl, line⟩
    refine (takes_token (by decide)).bind fun indent taken => .given ?_
    rintro ⟨rfl, opens⟩
    -- behind what opens the block no line has ended, so that nothing is skipped
    refine takes_skipNewlines.bind fun _ taken => .given ?_
    rintro rfl
    dsimp only
    refine (takes_statements budget _ []).bind fun nodes taken => .given ?_
    rintro ⟨inner, rfl, spelled⟩
    refine (takes_token (by decide)).bind fun dedent taken => .given ?_
    rintro ⟨rfl, closes⟩
    exact takes_pure fun _ outside =>
      ⟨Token.encloses_block found line opens spelled closes _, outside⟩

theorem takes_statements : ∀ (budget : Nat) (ends : TokenKind → Bool) (read : List Node),
    Takes Outside (statements .standard budget ends read) fun found taken cursor =>
      (∃ more, found = read.reverse ++ more ∧ Remains taken (Node.sentences more)) ∧
      (ends cursor.peek.kind = true ∧ Outside cursor)
  | 0, _, _ => by
    rw [statements]
    exact takes_exhausted
  | budget + 1, ends, read => by
    rw [statements]
    refine takes_peek.bind fun first taken => .given ?_
    rintro rfl
    split
    · rename_i ended
      refine takes_pure fun cursor ready => ⟨⟨[], (List.append_nil _).symm, Token.remains_nil⟩, ?_, ready.2⟩
      rw [← ready.1]
      exact ended
    · refine (takes_statement budget).bind fun node taken => .given fun one => ?_
      refine takes_skipNewlines.bind fun _ nothing => .given ?_
      rintro rfl
      refine (takes_statements budget ends (node :: read)).mono fun result further cursor => ?_
      rintro ⟨⟨others, same, spelled⟩, ready⟩
      refine ⟨⟨node :: others, ?_, ?_⟩, ready⟩
      · rw [same, List.reverse_cons, List.append_assoc, List.singleton_append]
      · have whole := one.append spelled
        rw [List.append_assoc] at whole
        exact whole

end

end Parser

end TabScript
