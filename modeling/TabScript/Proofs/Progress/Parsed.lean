import TabScript.Proofs.Progress.Statements

/-! Whatever the tokens are, they are parsed or refused.

The cursor has a place among the tokens. It starts at the first of them, goes forward and never passes the end
of the program, so that there always is a token next. -/

set_option autoImplicit false

namespace TabScript

/-- The tokens with a mark of the end behind them, unless this is the last one. -/
def Token.marked (tokens : List Token) : List Token :=
  if tokens.getLast?.map (·.kind) = some .endOfProgram then tokens
  else tokens ++ [.structural .endOfProgram ((tokens.getLast?.map (·.span.stop)).getD default)]

namespace Cursor

variable {tokens taken : List Token} {position : Nat} {cursor after : Cursor}

/-- The cursor is in front of the token at this place, and behind the one before. No token up to there is the
end of the program, and there is such a token behind. -/
def Stands (tokens : List Token) (position : Nat) (cursor : Cursor) : Prop :=
  ∃ before beyond, tokens = before ++ (cursor.upcoming ++ cursor.ending :: beyond) ∧
    before.length = position ∧ cursor.previous = before.getLast? ∧
    (∀ token ∈ before ++ cursor.upcoming, token.kind ≠ .endOfProgram) ∧ cursor.Ends

theorem Stands.ends (stands : cursor.Stands tokens position) : cursor.Ends := by
  obtain ⟨before, beyond, -, -, -, -, ends⟩ := stands
  exact ends

theorem Stands.getElem? (stands : cursor.Stands tokens position) : tokens[position]? = some cursor.peek := by
  obtain ⟨before, beyond, rfl, rfl, -, -, -⟩ := stands
  obtain ⟨previous, upcoming, ending⟩ := cursor
  rw [List.getElem?_append_right (Nat.le_refl _), Nat.sub_self]
  cases upcoming <;> rfl

theorem Stands.previous_eq (stands : cursor.Stands tokens position) :
    cursor.previous = if position = 0 then none else tokens[position - 1]? := by
  obtain ⟨before, beyond, rfl, rfl, last, -, -⟩ := stands
  rw [last]
  split
  · rename_i none_
    rw [List.length_eq_zero_iff.1 none_]
    rfl
  · rename_i some_
    rw [List.getElem?_append_left (by omega), List.getLast?_eq_getElem?]

theorem Stands.before_ending (stands : cursor.Stands tokens position) {index : Nat} (earlier : index < position)
    {token : Token} (there : tokens[index]? = some token) : token.kind ≠ .endOfProgram := by
  obtain ⟨before, beyond, rfl, rfl, -, others, -⟩ := stands
  rw [List.getElem?_append_left earlier] at there
  exact others token (List.mem_append_left _ (List.mem_of_getElem? there))

theorem Stands.passes (stands : cursor.Stands tokens position) (passes : cursor.Passes taken after) :
    after.Stands tokens (position + taken.length) := by
  obtain ⟨before, beyond, rfl, rfl, last, others, ends⟩ := stands
  refine ⟨before ++ taken, beyond, ?_, List.length_append, ?_, ?_, passes.ends ends⟩
  · rw [passes.upcoming, passes.ending, List.append_assoc, List.append_assoc]
  · rw [passes.previous, last, List.getLast?_append]
  · rw [List.append_assoc, ← passes.upcoming]
    exact others

theorem stands_ofTokens (tokens : List Token) : (ofTokens tokens).Stands (Token.marked tokens) 0 := by
  -- the tokens up to the first mark of the end lie ahead; if there is none, one is put behind them all
  cases found : tokens.find? (·.kind = .endOfProgram) with
  | none =>
    have others : ∀ token ∈ tokens, token.kind ≠ .endOfProgram := by simpa using List.find?_eq_none.1 found
    have open_ : tokens.getLast?.map (·.kind) ≠ some .endOfProgram := by
      intro closed
      obtain ⟨last, at_, kind⟩ := Option.map_eq_some_iff.1 closed
      exact others last (List.mem_of_getLast? at_) kind
    have upcoming : (ofTokens tokens).upcoming = tokens := by
      have all := @List.takeWhile_append_of_pos _ (fun token : Token => decide (token.kind ≠ .endOfProgram))
        tokens [] (by simpa using others)
      simpa [ofTokens] using all
    refine ⟨[], [], ?_, rfl, rfl, ?_, ?_⟩
    · rw [upcoming, Token.marked, if_neg open_, ofTokens, found]
      rfl
    · rw [upcoming]
      exact others
    · rw [Ends, ofTokens, found]
      rfl
  | some ending =>
    obtain ⟨kind, before, beyond, same, others⟩ := List.find?_eq_some_iff_append.1 found
    have others' : ∀ token ∈ before, token.kind ≠ .endOfProgram := by simpa using others
    have kind' : ending.kind = .endOfProgram := by simpa using kind
    have upcoming : (ofTokens tokens).upcoming = before := by
      rw [ofTokens, same]
      dsimp only
      rw [List.takeWhile_append_of_pos (by simpa using others'),
        List.takeWhile_cons_of_neg (by simp [kind']), List.append_nil]
    have ends : (ofTokens tokens).ending = ending := by
      rw [ofTokens, found]
      rfl
    have marked : ∃ beyond, Token.marked tokens = before ++ ending :: beyond := by
      rw [Token.marked]
      split
      · exact ⟨beyond, same⟩
      · exact ⟨_, by rw [same, List.append_assoc, List.cons_append]⟩
    obtain ⟨beyond, marked⟩ := marked
    refine ⟨[], beyond, ?_, rfl, rfl, ?_, ?_⟩
    · rw [upcoming, ends, marked]
      rfl
    · rw [upcoming]
      exact others'
    · rw [Ends, ends, kind']

end Cursor

namespace Parser

variable {grammar : Grammar}

def programWithin (grammar : Grammar) (budget : Nat) : Parser Block := do
  skipNewlines
  let nodes ← statements grammar budget (fun kind => kind = .endOfProgram) []
  return .of (spanOf nodes (.point (← peek).span.start)) nodes

theorem program_eq_programWithin (grammar : Grammar) (cursor : Cursor) :
    program grammar cursor = programWithin grammar (budgetFor cursor.upcoming.length) cursor := rfl

theorem settles_programWithin (named : grammar.Named) (budget extra room : Nat) :
    Settles Wherever (5 * room + 3 ≤ budget) room (programWithin grammar budget)
      (programWithin grammar (budget + extra)) False := by
  refine settles_skipNewlines.bind fun _ => ?_
  refine (settles_statements named budget extra _ [] room).bind fun nodes => ?_
  exact Settles.peek fun token => settles_pure _

/-- The readers that a program is read by. The budgets and what they were given do not matter. -/
inductive Reader (grammar : Grammar) : (α : Type) → Parser α → Prop where
  | peek : Reader grammar Token peek
  | next : Reader grammar Token next
  | skipNewlines : Reader grammar Unit skipNewlines
  | punctuator? (text : String) : Reader grammar (Option Token) (punctuator? text)
  | punctuator (text : String) : Reader grammar Token (punctuator text)
  | token (kind : TokenKind) : Reader grammar Token (token kind)
  | endOfLine : Reader grammar Unit endOfLine
  | parameters (budget : Nat) (read : List String) :
    Reader grammar (List String) (parameters budget read)
  | expression (budget least : Nat) : Reader grammar Node (expression grammar budget least)
  | leading (budget : Nat) (rule : LeadingRule) (token : Token) :
    Reader grammar Node (leading grammar budget rule token)
  | trailing (budget least : Nat) (left : Node) :
    Reader grammar Node (trailing grammar budget least left)
  | join (budget : Nat) (rule : TrailingRule) (left : Node) (token : Token) :
    Reader grammar Node (join grammar budget rule left token)
  | sequence (budget : Nat) (close : String) (read : List Node) :
    Reader grammar (List Node × Token) (sequence grammar budget close read)
  | statement (budget : Nat) : Reader grammar Node (statement grammar budget)
  | compound (budget : Nat) (rule : StatementRule) (keyword : Token) :
    Reader grammar Node (compound grammar budget rule keyword)
  | branches (budget : Nat) (read : List Branch) :
    Reader grammar (List Branch) (branches grammar budget read)
  | alternative (budget : Nat) : Reader grammar (Option Block) (alternative grammar budget)
  | block (budget : Nat) : Reader grammar Block (block grammar budget)
  | statements (budget : Nat) (ends : TokenKind → Bool) (read : List Node) :
    Reader grammar (List Node) (statements grammar budget ends read)
  | program : Reader grammar Block (program grammar)

theorem Reader.forward (named : grammar.Named) {α : Type} {reader : Parser α}
    (reads : Reader grammar α reader) {cursor after : Cursor} {value : α} (ends : cursor.Ends)
    (read : reader cursor = .ok (value, after)) : ∃ taken, cursor.Passes taken after := by
  have goes : ∀ (other : Parser α) (ample strict : Prop),
      Settles Wherever ample 0 reader other strict → ∃ taken, cursor.Passes taken after := by
    intro other ample strict settles
    obtain ⟨taken, passes, -⟩ := settles.forward ends trivial read
    exact ⟨taken, passes⟩
  cases reads with
  | peek =>
    cases read
    exact ⟨[], cursor.passes_refl⟩
  | next => exact goes _ True _ settles_advance
  | skipNewlines => exact goes _ True _ settles_skipNewlines
  | punctuator? text => exact goes _ True _ (settles_punctuator? text)
  | punctuator text => exact goes _ True _ (settles_punctuator text)
  | token kind => exact goes _ True _ (settles_anyToken kind)
  | endOfLine => exact goes _ True _ settles_endOfLine
  | parameters budget names => exact goes _ _ _ (settles_parameters budget 0 names 0)
  | expression budget least => exact goes _ _ _ (settles_expression named budget 0 least 0)
  | leading budget rule first => exact goes _ _ _ (settles_leading named budget 0 rule first 0)
  | trailing budget least left => exact goes _ _ _ (settles_trailing named budget 0 least left 0)
  | join budget rule left mark => exact goes _ _ _ (settles_join named budget 0 rule left mark 0)
  | sequence budget close items => exact goes _ _ _ (settles_sequence named budget 0 close items 0)
  | statement budget => exact goes _ _ _ (settles_statement named budget 0 0)
  | compound budget rule keyword => exact goes _ _ _ (settles_compound named budget 0 rule keyword 0)
  | branches budget others => exact goes _ _ _ (settles_branches named budget 0 others 0)
  | alternative budget => exact goes _ _ _ (settles_alternative named budget 0 0)
  | block budget => exact goes _ _ _ (settles_block named budget 0 0)
  | statements budget ends nodes => exact goes _ _ _ (settles_statements named budget 0 ends nodes 0)
  | program =>
    rw [program_eq_programWithin] at read
    obtain ⟨taken, passes, -⟩ := (settles_programWithin named _ 0 0).forward ends trivial read
    exact ⟨taken, passes⟩

end Parser

open TabScript.Parser

variable {grammar : Grammar}

/-- The parser comes to an end and makes progress whatever the tokens are, under any grammar without a rule for
expressions that has no symbol. It gives a program or refuses the tokens, and neither depends on the bound on
the depth of its calls. The cursor always is at the place of a token, up to the first mark of the end, no
reader moves it back, and every expression and every statement that is read moves it forward. -/
theorem parse_progresses (named : grammar.Named) (tokens : List Token) :
    ((∃ program, parseTokens grammar tokens = .ok program) ∨
      ∃ fault, parseTokens grammar tokens = .error fault ∧ fault.cause ≠ .endlessRule) ∧
    (∀ budget, budgetFor (Cursor.ofTokens tokens).upcoming.length ≤ budget →
      parseTokens grammar tokens =
        (programWithin grammar budget (.ofTokens tokens)).map Prod.fst) ∧
    (Cursor.ofTokens tokens).Stands (Token.marked tokens) 0 ∧
    ∀ position cursor, cursor.Stands (Token.marked tokens) position →
      (∃ inside : position < (Token.marked tokens).length,
        cursor.peek = (Token.marked tokens)[position] ∧
        cursor.previous = (if position = 0 then none else (Token.marked tokens)[position - 1]?) ∧
        ∀ index (earlier : index < position), (Token.marked tokens)[index].kind ≠ .endOfProgram) ∧
      (∀ α reader, Reader grammar α reader → ∀ value after, reader cursor = .ok (value, after) →
        ∃ later, position ≤ later ∧ after.Stands (Token.marked tokens) later) ∧
      (∀ budget least node after, expression grammar budget least cursor = .ok (node, after) →
        ∃ later, position < later ∧ after.Stands (Token.marked tokens) later) ∧
      ∀ budget node after, statement grammar budget cursor = .ok (node, after) →
        ∃ later, position < later ∧ after.Stands (Token.marked tokens) later := by
  have start := Cursor.stands_ofTokens tokens
  have ample : 5 * (Cursor.ofTokens tokens).upcoming.length + 3 ≤
      budgetFor (Cursor.ofTokens tokens).upcoming.length := by
    unfold budgetFor
    omega
  refine ⟨?_, fun budget enough => ?_, start, fun position cursor stands => ⟨?_, ?_, ?_, ?_⟩⟩
  · unfold parseTokens
    rw [program_eq_programWithin]
    cases read : programWithin grammar (budgetFor (Cursor.ofTokens tokens).upcoming.length)
        (.ofTokens tokens) with
    | ok pair => exact .inl ⟨pair.1, rfl⟩
    | error fault =>
      refine .inr ⟨fault, rfl, ?_⟩
      exact (settles_programWithin named _ 0 _).ends start.ends trivial ample (Nat.le_refl _) read
  · have same := (settles_programWithin named _ (budget - budgetFor
      (Cursor.ofTokens tokens).upcoming.length) _).same start.ends trivial ample (Nat.le_refl _)
    rw [Nat.add_sub_cancel' enough] at same
    rw [same]
    rfl
  · obtain ⟨inside, next⟩ := List.getElem?_eq_some_iff.1 stands.getElem?
    refine ⟨inside, next.symm, stands.previous_eq, fun index earlier => ?_⟩
    exact stands.before_ending earlier (List.getElem?_eq_getElem (Nat.lt_trans earlier inside))
  · intro α reader reads value after read
    obtain ⟨taken, passes⟩ := reads.forward named stands.ends read
    exact ⟨_, Nat.le_add_right _ _, stands.passes passes⟩
  · intro budget least node after read
    obtain ⟨taken, passes, some_⟩ :=
      (settles_expression named budget 0 least 0).forward stands.ends trivial read
    have more := List.length_pos_iff.2 (some_ trivial)
    exact ⟨_, Nat.lt_add_of_pos_right more, stands.passes passes⟩
  · intro budget node after read
    obtain ⟨taken, passes, some_⟩ :=
      (settles_statement named budget 0 0).forward stands.ends trivial read
    have more := List.length_pos_iff.2 (some_ trivial)
    exact ⟨_, Nat.lt_add_of_pos_right more, stands.passes passes⟩

/-- A block ends that was not begun, and behind the end of the program there are more tokens. -/
theorem parse_progresses_stray :
    Grammar.standard.Named ∧
      ∃ fault, parseTokens .standard
          [.structural .dedent default, .structural .endOfProgram default, .structural .indent default] =
        .error fault ∧ fault.cause ≠ .endlessRule := by
  refine ⟨Grammar.named_standard, ?_⟩
  rcases (parse_progresses Grammar.named_standard
    [.structural .dedent default, .structural .endOfProgram default, .structural .indent default]).1 with
    ⟨program, read⟩ | refused
  · cases read
  · exact refused

end TabScript
