import TabScript.Proofs.Nesting.Taken

/-! A program is read from its tokens, with their stretches.

What every reader takes is what its result is made of. -/

set_option autoImplicit false

namespace TabScript

namespace Parser

open Node (Makes Lists States StatesAll)

-- By induction on the budget, which every call lowers.
mutual

theorem makes_expression : ∀ {pre : Cursor → Prop} (budget least : Nat),
    Takes pre (expression .standard budget least)
      fun node taken cursor => Makes taken node ∧ Inside cursor
  | _, 0, _ => by
    rw [expression]
    exact takes_exhausted
  | _, budget + 1, least => by
    rw [expression]
    refine takes_peek.bind fun token taken => .given ?_
    rintro rfl
    split
    · exact takes_unexpected
    · rename_i rule known
      have content := Token.isContent_of_leading known
      refine (takes_next (TokenKind.ne_of_isContent content)).bind fun found taken => .given ?_
      rintro ⟨rfl, rfl, lexed⟩
      rw [content]
      refine (makes_leading budget rule found lexed known).bind fun left taken => .given fun begun => ?_
      refine (makes_trailing budget least left).mono fun node further cursor => ?_
      rintro ⟨continued, inside⟩
      exact ⟨begun.extend continued, inside⟩

theorem makes_leading : ∀ (budget : Nat) (rule : LeadingRule) (token : Token), token.Lexed →
    Grammar.standard.leading? token.symbol = some rule →
    Takes Inside (leading .standard budget rule token)
      fun node taken cursor => Makes (token :: taken) node ∧ Inside cursor
  | 0, _, _, _, _ => by
    rw [leading]
    exact takes_exhausted
  | budget + 1, rule, token, lexed, known => by
    have symbols := Grammar.leading?_symbols known
    cases rule with
    | atom =>
      have value := Token.isAtom_of_symbol lexed (List.mem_singleton.1 symbols)
      rw [leading]
      exact takes_pure fun _ inside => ⟨Node.makes_atom lexed value, inside⟩
    | noneLiteral =>
      have found := lexed.is_keyword (List.mem_singleton.1 symbols) (by decide)
      rw [leading]
      exact takes_pure fun _ inside => ⟨Node.makes_none found, inside⟩
    | group =>
      have opening := lexed.is_mark (List.mem_singleton.1 symbols) (by decide)
      rw [leading]
      refine (makes_expression budget _).bind fun inner taken => .given fun grouped => ?_
      refine takes_punctuator.bind fun close further => .given ?_
      rintro ⟨rfl, closing⟩
      exact takes_pure fun _ inside => ⟨grouped.group opening closing, inside⟩
    | array =>
      have opening := lexed.is_mark (List.mem_singleton.1 symbols) (by decide)
      rw [leading]
      refine (makes_sequence budget "]" []).bind fun found taken => .given ?_
      obtain ⟨items, close⟩ := found
      rintro ⟨parts, same, listed⟩
      obtain rfl : items = parts := same
      refine takes_pure fun _ inside => ⟨?_, inside⟩
      rw [List.append_nil]
      exact listed.array opening
    | unary precedence =>
      rw [leading]
      split
      · exact takes_fail
      · rename_i operator stands
        have found := lexed.is_mark rfl (Token.unary_marks _ symbols)
        refine (makes_expression budget precedence).bind fun operand taken => .given fun one => ?_
        refine takes_pure fun _ inside => ⟨?_, inside⟩
        rw [List.append_nil]
        exact one.unary found stands

theorem makes_trailing : ∀ (budget least : Nat) (left : Node),
    Takes Inside (trailing .standard budget least left)
      fun node taken cursor => Node.Continues taken left node ∧ Inside cursor
  | 0, _, _ => by
    rw [trailing]
    exact takes_exhausted
  | budget + 1, least, left => by
    rw [trailing]
    refine takes_peek.bind fun token taken => .given ?_
    rintro rfl
    split
    · exact takes_pure fun _ ready => ⟨Node.continues_refl left, ready.2⟩
    · rename_i rule known
      split
      · have content := Token.isContent_of_trailing known
        refine (takes_next (TokenKind.ne_of_isContent content)).bind fun found taken => .given ?_
        rintro ⟨rfl, rfl, lexed⟩
        rw [content]
        refine (makes_join budget rule left found lexed known).bind fun joined taken =>
          .given fun first => ?_
        refine (makes_trailing budget least joined).mono fun node further cursor => ?_
        rintro ⟨second, inside⟩
        exact ⟨first.trans second, inside⟩
      · exact takes_pure fun _ ready => ⟨Node.continues_refl left, ready.2⟩

theorem makes_join : ∀ (budget : Nat) (rule : TrailingRule) (left : Node) (token : Token), token.Lexed →
    Grammar.standard.trailing? token.symbol = some rule →
    Takes Inside (join .standard budget rule left token)
      fun node taken cursor => Node.Continues (token :: taken) left node ∧ Inside cursor
  | 0, _, _, _, _, _ => by
    rw [join]
    exact takes_exhausted
  | budget + 1, ⟨form, precedence⟩, left, token, lexed, known => by
    have symbols := Grammar.trailing?_symbols known
    cases form with
    | binary =>
      rw [join]
      dsimp only
      split
      · exact takes_fail
      · rename_i operator stands
        have found := lexed.is_mark rfl (Token.binary_marks _ symbols)
        refine (makes_expression budget precedence).bind fun right taken => .given fun operand => ?_
        refine takes_pure fun _ inside => ⟨?_, inside⟩
        rw [List.append_nil]
        exact operand.binary found stands
    | assign =>
      have found := lexed.is_mark (List.mem_singleton.1 symbols) (by decide)
      rw [join]
      dsimp only
      split
      · refine (makes_expression budget precedence).bind fun right taken => .given fun value => ?_
        refine takes_pure fun _ inside => ⟨?_, inside⟩
        rw [List.append_nil]
        exact value.assigned found
      · exact takes_fail
    | call =>
      have opening := lexed.is_mark (List.mem_singleton.1 symbols) (by decide)
      rw [join]
      refine (makes_sequence budget ")" []).bind fun found taken => .given ?_
      obtain ⟨items, close⟩ := found
      rintro ⟨parts, same, listed⟩
      obtain rfl : items = parts := same
      refine takes_pure fun _ inside => ⟨?_, inside⟩
      rw [List.append_nil]
      exact listed.call opening
    | subscript =>
      have opening := lexed.is_mark (List.mem_singleton.1 symbols) (by decide)
      rw [join]
      refine takes_atPunctuator.bind fun missing taken => .given ?_
      rintro rfl
      split
      · exact takes_refused
      · refine (makes_expression budget _).bind fun start taken => .given fun first => ?_
        -- a colon tells a slice from an element
        refine takes_punctuator?.bind fun colon between => ?_
        cases colon with
        | some colon =>
          refine .given ?_
          rintro ⟨rfl, found⟩
          refine (makes_expression budget _).bind fun stop more => .given fun second => ?_
          refine takes_punctuator.bind fun close last => .given ?_
          rintro ⟨rfl, closing⟩
          exact takes_pure fun _ inside => ⟨first.slice opening found second closing, inside⟩
        | none =>
          refine .given ?_
          rintro rfl
          refine takes_punctuator.bind fun close last => .given ?_
          rintro ⟨rfl, closing⟩
          exact takes_pure fun _ inside => ⟨first.element opening closing, inside⟩

theorem makes_sequence : ∀ {pre : Cursor → Prop} (budget : Nat) (close : String) (read : List Node),
    Takes pre (sequence .standard budget close read) fun found taken cursor =>
      (∃ items, found.1 = read.reverse ++ items ∧ Lists close taken found.2 items) ∧ Inside cursor
  | _, 0, _, _ => by
    rw [sequence]
    exact takes_exhausted
  | _, budget + 1, close, read => by
    rw [sequence]
    refine takes_punctuator?.bind fun closing taken => ?_
    cases closing with
    | some token =>
      refine .given ?_
      rintro ⟨rfl, found⟩
      refine takes_pure fun _ inside => ⟨⟨[], (List.append_nil _).symm, ?_⟩, inside⟩
      exact Node.lists_nil found
    | none =>
      refine .given ?_
      rintro rfl
      refine (makes_expression budget _).bind fun item taken => .given fun one => ?_
      -- behind a comma the list may be closed at once: then no further part is read
      refine takes_punctuator?.bind fun comma between => ?_
      cases comma with
      | some token =>
        refine .given ?_
        rintro ⟨rfl, found⟩
        refine (makes_sequence budget close (item :: read)).mono fun result more cursor => ?_
        rintro ⟨⟨items, same, listed⟩, inside⟩
        refine ⟨⟨item :: items, ?_, one.separated found listed⟩, inside⟩
        rw [same, List.reverse_cons, List.append_assoc, List.singleton_append]
      | none =>
        refine .given ?_
        rintro rfl
        refine takes_punctuator.bind fun token last => .given ?_
        rintro ⟨rfl, found⟩
        refine takes_pure fun _ inside => ⟨⟨[item], ?_, one.last found⟩, inside⟩
        rw [List.reverse_cons]

end

theorem makes_parameters : ∀ (budget : Nat) (read : List String),
    Takes Inside (parameters budget read) fun names taken cursor =>
      (∃ more, names = read.reverse ++ more ∧ Token.Parameters taken more) ∧ Inside cursor
  | 0, _ => by
    rw [parameters]
    exact takes_exhausted
  | budget + 1, read => by
    rw [parameters]
    refine takes_atPunctuator.bind fun closing taken => .given ?_
    rintro rfl
    split
    · exact takes_pure fun _ ready => ⟨⟨[], (List.append_nil _).symm, .nil⟩, ready.2⟩
    · refine (takes_token (by decide)).bind fun parameter taken => .given ?_
      rintro ⟨rfl, kind, lexed⟩
      obtain ⟨name, text⟩ := Token.text?_of_identifier kind lexed
      rw [text]
      dsimp only [Option.getD_some]
      split
      · exact takes_failed
      · refine takes_punctuator?.bind fun comma between => ?_
        cases comma with
        | some comma =>
          refine .given ?_
          rintro ⟨rfl, found⟩
          refine (makes_parameters budget _).mono fun names more cursor => ?_
          rintro ⟨⟨others, same, further⟩, inside⟩
          refine ⟨⟨name :: others, ?_, .separated kind text found further⟩, inside⟩
          rw [same, List.reverse_cons, List.append_assoc, List.singleton_append]
        | none =>
          refine .given ?_
          rintro rfl
          refine takes_pure fun _ ready => ⟨⟨[name], ?_, .last kind text⟩, ready.2⟩
          rw [List.reverse_cons]

mutual

theorem states_statement : ∀ {pre : Cursor → Prop} (budget : Nat),
    Takes pre (statement .standard budget) fun node taken cursor => States taken node ∧ Outside cursor
  | _, 0 => by
    rw [statement]
    exact takes_exhausted
  | _, budget + 1 => by
    rw [statement]
    refine takes_peek.bind fun first taken => .given ?_
    rintro rfl
    dsimp only
    split
    · refine (makes_expression budget _).bind fun node taken => .given fun one => ?_
      refine takes_endOfLine.bind fun _ last => .given ?_
      rintro ⟨ending, rfl, kind, -⟩
      exact takes_pure fun _ outside => ⟨one.states kind, outside⟩
    · rename_i rule known
      split at known
      · rename_i reserved
        refine (takes_next (by simp [reserved])).bind fun word taken => .given ?_
        rintro ⟨rfl, rfl, lexed⟩
        rw [reserved]
        have found : word.is .keyword rule.word = true :=
          lexed.is_keyword (Grammar.statement?_word known) (by cases rule <;> decide)
        exact states_compound budget rule word found
      · cases known

theorem states_compound : ∀ (budget : Nat) (rule : StatementRule) (first : Token),
    first.is .keyword rule.word = true →
    Takes Inside (compound .standard budget rule first) fun node taken cursor =>
      States (first :: taken) node ∧ Outside cursor
  | 0, _, _, _ => by
    rw [compound]
    exact takes_exhausted
  | budget + 1, .choice, first, found => by
    rw [compound]
    refine (makes_expression budget _).bind fun condition taken => .given fun asked => ?_
    refine (makes_block budget).bind fun body inner => .given fun guarded => ?_
    refine (makes_branches budget []).bind fun others further => .given ?_
    rintro ⟨branches, rfl, listed⟩
    refine (makes_alternative budget).bind fun otherwise last => .given fun ends => ?_
    refine takes_pure fun _ outside => ⟨?_, outside⟩
    rw [List.append_nil]
    exact asked.choice found guarded listed ends
  | budget + 1, .loop, first, found => by
    rw [compound]
    refine (makes_expression budget _).bind fun condition taken => .given fun asked => ?_
    refine (makes_block budget).bind fun body inner => .given fun repeated => ?_
    refine takes_pure fun _ outside => ⟨?_, outside⟩
    rw [List.append_nil]
    exact asked.loop found repeated
  | budget + 1, .definition, first, found => by
    rw [compound]
    refine (takes_token (by decide)).bind fun word taken => .given ?_
    rintro ⟨rfl, kind, lexed⟩
    obtain ⟨name, text⟩ := Token.text?_of_identifier kind lexed
    refine takes_punctuator.bind fun opening taken => .given ?_
    rintro ⟨rfl, opens⟩
    refine (makes_parameters budget []).bind fun names listed => .given ?_
    rintro ⟨parameters, rfl, given⟩
    refine takes_punctuator.bind fun closing taken => .given ?_
    rintro ⟨rfl, closes⟩
    refine (makes_block budget).bind fun body inner => .given fun runs => ?_
    refine takes_pure fun _ outside => ⟨?_, outside⟩
    rw [List.append_nil, text]
    exact Node.States.definition found kind text opens given closes runs
  | budget + 1, .result, first, found => by
    rw [compound]
    refine takes_peek.bind fun next taken => .given ?_
    rintro rfl
    -- all three kinds of layout are left to the end of the line
    have bare : Takes (fun cursor => next = cursor.peek ∧ Inside cursor)
        (endOfLine >>= fun _ => pure (.result first.span none)) fun node taken cursor =>
          States (first :: taken) node ∧ Outside cursor := by
      refine (takes_endOfLine.weaken fun _ ready => ready.2).bind fun _ last => .given ?_
      rintro ⟨ending, rfl, kind, -⟩
      exact takes_pure fun _ outside => ⟨Node.states_bare kind found, outside⟩
    split
    · exact bare
    · exact bare
    · exact bare
    · refine (makes_expression budget _).bind fun value taken => .given fun one => ?_
      refine takes_endOfLine.bind fun _ last => .given ?_
      rintro ⟨ending, rfl, kind, -⟩
      exact takes_pure fun _ outside => ⟨one.result kind found, outside⟩
  | budget + 1, .pass, first, found => by
    rw [compound]
    refine takes_endOfLine.bind fun _ last => .given ?_
    rintro ⟨ending, rfl, kind, -⟩
    exact takes_pure fun _ outside => ⟨Node.states_pass kind found, outside⟩
  | budget + 1, .deletion, first, found => by
    rw [compound]
    refine (makes_expression budget _).bind fun target taken => .given fun one => ?_
    dsimp only
    split
    · exact takes_failed
    · refine takes_endOfLine.bind fun _ last => .given ?_
      rintro ⟨ending, rfl, kind, -⟩
      exact takes_pure fun _ outside => ⟨one.deletion kind found, outside⟩

theorem makes_branches : ∀ (budget : Nat) (read : List Branch),
    Takes Outside (branches .standard budget read) fun found taken cursor =>
      (∃ more, found = read.reverse ++ more ∧ Branch.MakesAll taken more) ∧ Outside cursor
  | 0, _ => by
    rw [branches]
    exact takes_exhausted
  | budget + 1, read => by
    rw [branches]
    refine takes_atKeyword.bind fun another taken => .given ?_
    rintro rfl
    cases another with
    | true =>
      refine (takes_is rfl).bind fun first taken => .given ?_
      rintro ⟨rfl, found⟩
      refine (makes_expression budget _).bind fun condition taken => .given fun asked => ?_
      refine (makes_block budget).bind fun body inner => .given fun guarded => ?_
      refine (makes_branches budget (.of condition body :: read)).mono fun result further cursor => ?_
      rintro ⟨⟨others, same, listed⟩, outside⟩
      have made := asked.branch found guarded listed
      refine ⟨⟨.of condition body :: others, ?_, made⟩, outside⟩
      rw [same, List.reverse_cons, List.append_assoc, List.singleton_append]
    | false =>
      exact takes_pure fun _ ready => ⟨⟨[], (List.append_nil _).symm, Branch.makesAll_nil⟩, ready.2⟩

theorem makes_alternative : ∀ budget : Nat,
    Takes Outside (alternative .standard budget) fun found taken cursor =>
      Block.MakesLast taken found ∧ Outside cursor
  | 0 => by
    rw [alternative]
    exact takes_exhausted
  | budget + 1 => by
    rw [alternative]
    refine takes_atKeyword.bind fun found taken => .given ?_
    rintro rfl
    cases found with
    | true =>
      refine (takes_is rfl).bind fun first taken => .given ?_
      rintro ⟨rfl, found⟩
      refine (makes_block budget).bind fun body inner => .given fun guarded => ?_
      refine takes_pure fun _ outside => ⟨?_, outside⟩
      rw [List.append_nil]
      exact guarded.otherwise found
    | false => exact takes_pure fun _ ready => ⟨Block.makesLast_none, ready.2⟩

theorem makes_block : ∀ {pre : Cursor → Prop} (budget : Nat),
    Takes pre (block .standard budget) fun found taken cursor => found.Makes taken ∧ Outside cursor
  | _, 0 => by
    rw [block]
    exact takes_exhausted
  | _, budget + 1 => by
    rw [block]
    refine takes_punctuator.bind fun colon taken => .given ?_
    rintro ⟨rfl, found⟩
    refine (takes_token (by decide)).bind fun newline taken => .given ?_
    rintro ⟨rfl, line, -⟩
    refine (takes_token (by decide)).bind fun indent taken => .given ?_
    rintro ⟨rfl, opens, -⟩
    -- behind what opens the block no line has ended, so that nothing is skipped
    refine takes_skipNewlines.bind fun _ taken => .given ?_
    rintro rfl
    dsimp only
    refine (states_statements budget _ []).bind fun nodes taken => .given ?_
    rintro ⟨inner, rfl, stated⟩
    refine (takes_token (by decide)).bind fun dedent taken => .given ?_
    rintro ⟨rfl, closes, -⟩
    exact takes_pure fun _ outside => ⟨stated.block found line opens closes, outside⟩

theorem states_statements : ∀ (budget : Nat) (ends : TokenKind → Bool) (read : List Node),
    Takes Outside (statements .standard budget ends read) fun found taken cursor =>
      (∃ more, found = read.reverse ++ more ∧ StatesAll taken more) ∧
      (ends cursor.peek.kind = true ∧ Outside cursor)
  | 0, _, _ => by
    rw [statements]
    exact takes_exhausted
  | budget + 1, ends, read => by
    rw [statements]
    refine takes_peek.bind fun first taken => .given ?_
    rintro rfl
    split
    · rename_i ended
      refine takes_pure fun cursor ready =>
        ⟨⟨[], (List.append_nil _).symm, Node.statesAll_nil⟩, ?_, ready.2⟩
      rw [← ready.1]
      exact ended
    · refine (states_statement budget).bind fun node taken => .given fun one => ?_
      refine takes_skipNewlines.bind fun _ nothing => .given ?_
      rintro rfl
      refine (states_statements budget ends (node :: read)).mono fun result further cursor => ?_
      rintro ⟨⟨others, same, stated⟩, ready⟩
      refine ⟨⟨node :: others, ?_, ?_⟩, ready⟩
      · rw [same, List.reverse_cons, List.append_assoc, List.singleton_append]
      · exact one.cons stated

end

end Parser

end TabScript
