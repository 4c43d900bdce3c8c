import TabScript.Proofs.Spelling.Takes
import TabScript.Proofs.Spelling.Tree

/-! Expressions are read from their tokens.

What is taken for an expression is its spelling, apart from parentheses that group and commas in front of
what closes. Behind a left operand, what is taken next is the spelling of what it is joined to. -/

set_option autoImplicit false

namespace TabScript

open Token (mark keyword essential commas)

/-! The symbols that rules are found by. -/

def LeadingRule.symbols : LeadingRule → List String
  | .atom => [Token.atom]
  | .noneLiteral => ["None"]
  | .group => ["("]
  | .array => ["["]
  | .unary _ => ["+", "-", "not", "!"]

def TrailingForm.symbols : TrailingForm → List String
  | .binary =>
    ["or", "and", "**", "==", "!=", "<", "<=", ">", ">=", "is", "+", "-", "*", "/", "%"]
  | .assign => ["="]
  | .call => ["("]
  | .subscript => ["["]

namespace Grammar

variable {symbol : String}

theorem leading?_symbols {rule : LeadingRule} (known : standard.leading? symbol = some rule) :
    symbol ∈ rule.symbols := by
  have all : ∀ entry ∈ standard.leading, entry.1 ∈ entry.2.symbols := by decide
  obtain ⟨before, after, entries, -⟩ := List.lookup_eq_some_iff.1 known
  exact all (symbol, rule) (by rw [entries]; simp)

theorem trailing?_symbols {rule : TrailingRule} (known : standard.trailing? symbol = some rule) :
    symbol ∈ rule.form.symbols := by
  have all : ∀ entry ∈ standard.trailing, entry.1 ∈ entry.2.form.symbols := by decide
  obtain ⟨before, after, entries, -⟩ := List.lookup_eq_some_iff.1 known
  exact all (symbol, rule) (by rw [entries]; simp)

end Grammar

namespace Token

variable {token : Token}

/-- Layout has no symbol, names and constants share one, and any other token has its text as its own. -/
theorem Lexed.by_symbol (lexed : token.Lexed) :
    token.symbol = "" ∨ (token.IsAtom ∧ token.symbol = atom) ∨
      (token.is .punctuator token.symbol = true ∧ token.symbol ∉ keywords ∧ token.symbol ≠ atom) ∨
      (token.is .keyword token.symbol = true ∧ token.symbol ∈ keywords) := by
  obtain ⟨kind, value, span⟩ := token
  cases kind with
  | newline | indent | dedent | endOfProgram => exact .inl rfl
  | identifier => exact .inr (.inl ⟨.inl rfl, rfl⟩)
  | boolean => exact .inr (.inl ⟨.inr (.inl rfl), rfl⟩)
  | number => exact .inr (.inl ⟨.inr (.inr (.inl rfl)), rfl⟩)
  | text => exact .inr (.inl ⟨.inr (.inr (.inr rfl)), rfl⟩)
  | punctuator =>
    cases value with
    | none => exact lexed.elim
    | some literal =>
      cases literal with
      | text characters => exact .inr (.inr (.inl ⟨is_iff.2 ⟨rfl, rfl⟩, lexed⟩))
      | _ => exact lexed.elim
  | keyword =>
    cases value with
    | none => exact lexed.elim
    | some literal =>
      cases literal with
      | text word => exact .inr (.inr (.inr ⟨is_iff.2 ⟨rfl, rfl⟩, lexed⟩))
      | _ => exact lexed.elim

theorem isAtom_of_symbol (lexed : token.Lexed) (special : token.symbol = atom) : token.IsAtom := by
  rcases lexed.by_symbol with empty | ⟨found, -⟩ | ⟨-, -, other⟩ | ⟨-, reserved⟩
  · rw [special] at empty
    exact absurd empty (by decide)
  · exact found
  · exact absurd special other
  · rw [special] at reserved
    exact absurd reserved (by decide)

theorem Lexed.is_mark (lexed : token.Lexed) {characters : String} (same : token.symbol = characters)
    (known : characters ≠ "" ∧ characters ≠ atom ∧ characters ∉ keywords) :
    token.is .punctuator characters = true := by
  obtain ⟨something, special, free⟩ := known
  subst same
  rcases lexed.by_symbol with empty | ⟨-, same⟩ | ⟨found, -⟩ | ⟨-, reserved⟩
  · exact absurd empty something
  · exact absurd same special
  · exact found
  · exact absurd reserved free

theorem Lexed.is_keyword (lexed : token.Lexed) {characters : String} (same : token.symbol = characters)
    (known : characters ≠ "" ∧ characters ≠ atom ∧ characters ∈ keywords) :
    token.is .keyword characters = true := by
  obtain ⟨something, special, reserved⟩ := known
  subst same
  rcases lexed.by_symbol with empty | ⟨-, same⟩ | ⟨-, free, -⟩ | ⟨found, -⟩
  · exact absurd empty something
  · exact absurd same special
  · exact absurd reserved free
  · exact found

theorem unary_marks : ∀ symbol ∈ (LeadingRule.unary 0).symbols,
    symbol ≠ "" ∧ symbol ≠ atom ∧ symbol ∉ keywords := by decide

theorem binary_marks : ∀ symbol ∈ TrailingForm.binary.symbols,
    symbol ≠ "" ∧ symbol ≠ atom ∧ symbol ∉ keywords := by decide

theorem isContent_of_symbol (something : token.symbol ≠ "") : token.kind.isContent = true := by
  obtain ⟨kind, value, span⟩ := token
  cases kind with
  | newline | indent | dedent | endOfProgram => exact absurd rfl something
  | _ => rfl

theorem isContent_of_leading {rule : LeadingRule}
    (known : Grammar.standard.leading? token.symbol = some rule) : token.kind.isContent = true := by
  refine isContent_of_symbol fun empty => ?_
  have inside := Grammar.leading?_symbols known
  rw [empty] at inside
  cases rule <;> simp [LeadingRule.symbols, atom] at inside

theorem isContent_of_trailing {rule : TrailingRule}
    (known : Grammar.standard.trailing? token.symbol = some rule) : token.kind.isContent = true := by
  refine isContent_of_symbol fun empty => ?_
  have inside := Grammar.trailing?_symbols known
  rw [empty] at inside
  cases form : rule.form <;> simp [form, TrailingForm.symbols] at inside

structure Expresses (taken : List Token) (node : Node) : Prop where
  simple : node.isCompound = false
  starts : ∃ first others, taken = first :: others ∧ first.closes = false
  remains : ∀ lists rest,
    essential false lists (taken ++ rest) = node.spelling ++ essential true lists rest

structure Extends (taken : List Token) (left node : Node) : Prop where
  simple : left.isCompound = false → node.isCompound = false
  spells : ∃ further, node.spelling = left.spelling ++ further ∧
    ∀ lists rest, essential true lists (taken ++ rest) = further ++ essential true lists rest

structure Lists (close : String) (taken : List Token) (items : List Node) : Prop where
  starts : ∃ first others, taken = first :: others ∧ (first.closes = true ↔ items = [])
  remains : ∀ lists rest, essential false (true :: lists) (taken ++ rest) =
    commas (Node.spellings items) ++ mark close :: essential true lists rest

theorem extends_refl (node : Node) : Extends [] node node :=
  ⟨id, [], (List.append_nil _).symm, fun _ _ => rfl⟩

theorem Extends.trans {taken further : List Token} {left middle node : Node}
    (first : Extends taken left middle) (second : Extends further middle node) :
    Extends (taken ++ further) left node := by
  obtain ⟨simple, words, spells, remains⟩ := first
  obtain ⟨simple', others, spells', remains'⟩ := second
  refine ⟨simple' ∘ simple, words ++ others, ?_, fun lists rest => ?_⟩
  · rw [spells', spells, List.append_assoc]
  · rw [List.append_assoc, remains, remains', List.append_assoc]

theorem Expresses.extend {taken further : List Token} {left node : Node} (first : Expresses taken left)
    (second : Extends further left node) : Expresses (taken ++ further) node := by
  obtain ⟨simple, ⟨head, others, rfl, opening⟩, remains⟩ := first
  obtain ⟨simple', words, spells, remains'⟩ := second
  refine ⟨simple' simple, ⟨head, others ++ further, rfl, opening⟩, fun lists rest => ?_⟩
  rw [List.append_assoc, remains, remains', spells, List.append_assoc]

/-! One way to begin an expression after the other. -/

theorem spelling_atom (lexed : token.Lexed) (atom : token.IsAtom) :
    (Parser.atom token).spelling = [token.bare] := by
  obtain ⟨kind, value, span⟩ := token
  rcases atom with rfl | rfl | rfl | rfl
  all_goals
    cases value with
    | none => exact lexed.elim
    | some literal =>
      cases literal with
      | _ => first | exact lexed.elim | rfl

theorem simple_atom (token : Token) : (Parser.atom token).isCompound = false := by
  unfold Parser.atom
  split <;> rfl

theorem expresses_atom (lexed : token.Lexed) (atom : token.IsAtom) :
    Expresses [token] (Parser.atom token) := by
  refine ⟨simple_atom token, ⟨token, [], rfl, atom.isWord.closes⟩, fun lists rest => ?_⟩
  rw [spelling_atom lexed atom]
  exact essential_atom atom

theorem expresses_none (found : token.is .keyword "None" = true) (span : Span) :
    Expresses [token] (.literal span none) := by
  have word : token.kind ≠ .punctuator := by simp [(is_iff.1 found).1]
  exact ⟨rfl, ⟨token, [], rfl, (isWord_of_kind word).closes⟩, fun lists rest => essential_none found⟩

section
variable {taken : List Token} {node : Node} {closing : Token}

/-- Parentheses in front of which no operand ends leave nothing behind. -/
theorem Expresses.group (opening : token.is .punctuator "(" = true) (inner : Expresses taken node)
    (close : closing.is .punctuator ")" = true) (span : Span) :
    Expresses (token :: (taken ++ [closing])) (node.withSpan span) := by
  have first : token.closes = false := not_closes_of_is opening (by decide)
  refine ⟨?_, ⟨token, _, rfl, first⟩, fun lists rest => ?_⟩
  · rw [Node.isCompound, Node.tag_withSpan]
    exact inner.simple
  rw [Node.spelling_withSpan, List.cons_append, essential_group opening, List.append_assoc,
    inner.remains, List.singleton_append, essential_ungroup close]

theorem Lists.array {items : List Node} (opening : token.is .punctuator "[" = true)
    (inner : Lists "]" taken items) (span : Span) :
    Expresses (token :: taken) (.array span items) := by
  have first : token.closes = false := not_closes_of_is opening (by decide)
  refine ⟨rfl, ⟨token, taken, rfl, first⟩, fun lists rest => ?_⟩
  rw [List.cons_append, essential_bracket opening, Bool.not_false, inner.remains]
  simp only [Node.spelling, List.cons_append, List.append_assoc, List.nil_append]

theorem plain_unary {operator : Operator} (found : token.is .punctuator token.symbol = true)
    (known : token.symbol ∈ (LeadingRule.unary 0).symbols)
    (stands : Operator.unary? token.symbol = some operator) : token.plain = mark operator.symbol := by
  have all : ∀ symbol ∈ (LeadingRule.unary 0).symbols, (Operator.unary? symbol).map Operator.symbol =
      some (if symbol = "!" then "not" else symbol) := by decide
  have same := all _ known
  rw [stands] at same
  rw [Option.some.inj same]
  split
  · rename_i sign
    rw [sign] at found
    rw [plain, if_pos found]
  · rename_i other
    exact plain_of_is found other

theorem Expresses.unary {operator : Operator} (found : token.is .punctuator token.symbol = true)
    (known : token.symbol ∈ (LeadingRule.unary 0).symbols)
    (stands : Operator.unary? token.symbol = some operator) (operand : Expresses taken node)
    (span operatorSpan : Span) : Expresses (token :: taken) (.unary span operator operatorSpan node) := by
  have other : token.symbol ∉ ["(", "[", ")", "]", ","] := by
    have all : ∀ symbol ∈ (LeadingRule.unary 0).symbols, symbol ∉ ["(", "[", ")", "]", ","] := by decide
    exact all _ known
  refine ⟨rfl, ⟨token, taken, rfl, (isWord_of_is found other).closes⟩, fun lists rest => ?_⟩
  rw [List.cons_append, essential_sign found other, operand.remains, plain_unary found known stands]
  rfl

end

/-! One way to continue an expression after the other. -/

section
variable {taken more : List Token} {left right node : Node} {closing : Token} {items : List Node}

theorem plain_binary {operator : Operator} (found : token.is .punctuator token.symbol = true)
    (known : token.symbol ∈ TrailingForm.binary.symbols)
    (stands : Operator.binary? token.symbol = some operator) : token.plain = mark operator.symbol := by
  have all : ∀ symbol ∈ TrailingForm.binary.symbols,
      (Operator.binary? symbol).map Operator.symbol = some symbol ∧ symbol ≠ "!" := by decide
  obtain ⟨same, other⟩ := all _ known
  rw [stands] at same
  rw [Option.some.inj same]
  exact plain_of_is found other

theorem Expresses.binary {operator : Operator} (found : token.is .punctuator token.symbol = true)
    (known : token.symbol ∈ TrailingForm.binary.symbols)
    (stands : Operator.binary? token.symbol = some operator) (operand : Expresses taken right)
    (span operatorSpan : Span) :
    Extends (token :: taken) left (.binary span operator operatorSpan left right) := by
  have other : token.symbol ∉ ["(", "[", ")", "]", ","] := by
    have all : ∀ symbol ∈ TrailingForm.binary.symbols, symbol ∉ ["(", "[", ")", "]", ","] := by decide
    exact all _ known
  refine ⟨fun _ => rfl, mark operator.symbol :: right.spelling, by rw [Node.spelling], fun lists rest => ?_⟩
  rw [List.cons_append, essential_sign found other, operand.remains, plain_binary found known stands]
  rfl

theorem Expresses.assigned (found : token.is .punctuator "=" = true) (value : Expresses taken right)
    (span : Span) : Extends (token :: taken) left (.assignment span left right) := by
  refine ⟨fun _ => rfl, mark "=" :: right.spelling, by rw [Node.spelling], fun lists rest => ?_⟩
  rw [List.cons_append, essential_sign found (by decide), value.remains, plain_of_is found (by decide)]
  rfl

theorem Lists.call (opening : token.is .punctuator "(" = true) (inner : Lists ")" taken items)
    (span : Span) : Extends (token :: taken) left (.call span left items) := by
  refine ⟨fun _ => rfl, mark "(" :: (commas (Node.spellings items) ++ [mark ")"]),
    by rw [Node.spelling], fun lists rest => ?_⟩
  rw [List.cons_append, essential_call opening, inner.remains]
  simp only [List.cons_append, List.append_assoc, List.nil_append]

theorem Expresses.element (opening : token.is .punctuator "[" = true) (index : Expresses taken node)
    (close : closing.is .punctuator "]" = true) (span : Span) :
    Extends (token :: (taken ++ [closing])) left (.element span left node) := by
  refine ⟨fun _ => rfl, mark "[" :: (node.spelling ++ [mark "]"]), by rw [Node.spelling],
    fun lists rest => ?_⟩
  rw [List.cons_append, essential_bracket opening, List.append_assoc, index.remains,
    List.singleton_append, essential_unbracket close]
  simp only [List.cons_append, List.append_assoc, List.nil_append]

theorem Expresses.slice {colon : Token} {start stop : Node} (opening : token.is .punctuator "[" = true)
    (first : Expresses taken start) (between : colon.is .punctuator ":" = true)
    (second : Expresses more stop) (close : closing.is .punctuator "]" = true) (span : Span) :
    Extends (token :: (taken ++ colon :: (more ++ [closing]))) left (.slice span left start stop) := by
  refine ⟨fun _ => rfl, mark "[" :: (start.spelling ++ mark ":" :: (stop.spelling ++ [mark "]"])),
    by rw [Node.spelling], fun lists rest => ?_⟩
  rw [List.cons_append, essential_bracket opening, List.append_assoc, first.remains, List.cons_append,
    essential_sign between (by decide), plain_of_is between (by decide), List.append_assoc,
    second.remains, List.singleton_append, essential_unbracket close]
  simp only [List.cons_append, List.append_assoc, List.nil_append]
  rfl

end

/-! One part of a list after the other. -/

section
variable {close : String} {taken more : List Token} {node : Node} {closing : Token} {items : List Node}
  (bracket : close = ")" ∨ close = "]")
include bracket

theorem lists_nil (found : closing.is .punctuator close = true) : Lists close [closing] [] := by
  refine ⟨⟨closing, [], rfl, by simp [closes_of_is found bracket]⟩, fun lists rest => ?_⟩
  rw [List.singleton_append, essential_close found bracket]
  rfl

theorem Expresses.last (item : Expresses taken node) (found : closing.is .punctuator close = true) :
    Lists close (taken ++ [closing]) [node] := by
  obtain ⟨-, ⟨first, others, rfl, opening⟩, remains⟩ := item
  refine ⟨⟨first, others ++ [closing], rfl, by simp [opening]⟩, fun lists rest => ?_⟩
  rw [List.append_assoc, remains, List.singleton_append, essential_close found bracket]
  rfl

omit bracket in
/-- A comma behind a part is kept if another part follows, and otherwise it goes. -/
theorem Expresses.separated {comma : Token} (item : Expresses taken node)
    (found : comma.is .punctuator "," = true) (others : Lists close more items) :
    Lists close (taken ++ comma :: more) (node :: items) := by
  obtain ⟨-, ⟨first, words, rfl, opening⟩, remains⟩ := item
  refine ⟨⟨first, words ++ comma :: more, rfl, by simp [opening]⟩, fun lists rest => ?_⟩
  rw [List.append_assoc, remains, List.cons_append]
  obtain ⟨⟨next, further, rfl, ends⟩, remains'⟩ := others
  cases items with
  | nil =>
    have last : (next :: further ++ rest).head?.any closes = true := by simpa using ends
    rw [essential_comma_closing found last, remains']
    rfl
  | cons item items =>
    have more : (next :: further ++ rest).head?.any closes = false := by simpa using ends
    have spelled : commas (Node.spellings (node :: item :: items)) =
        node.spelling ++ mark "," :: commas (Node.spellings (item :: items)) :=
      commas_cons _ (List.cons_ne_nil _ _)
    rw [essential_comma found more, remains', spelled]
    simp only [List.cons_append, List.append_assoc]

end

end Token

namespace Parser

open Token (Expresses Extends Lists)

-- By induction on the budget, which every call lowers. What stands in front does not matter to an
-- expression; behind its first token the cursor is inside a line, and it stays there.
mutual

theorem takes_expression : ∀ {pre : Cursor → Prop} (budget least : Nat),
    Takes pre (expression .standard budget least)
      fun node taken cursor => Expresses taken node ∧ Inside cursor
  | _, 0, _ => by
    rw [expression]
    exact takes_exhausted
  | _, budget + 1, least => by
    rw [expression]
    refine takes_peek.bind fun token taken => .given ?_
    rintro rfl
    split
    · exact takes_unexpected
    · rename_i rule known
      have content := Token.isContent_of_leading known
      refine (takes_next (TokenKind.ne_of_isContent content)).bind fun found taken => .given ?_
      rintro ⟨rfl, rfl, lexed⟩
      rw [content]
      refine (takes_leading budget rule found lexed known).bind fun left taken => .given fun begun => ?_
      refine (takes_trailing budget least left).mono fun node further cursor => ?_
      rintro ⟨continued, inside⟩
      exact ⟨begun.extend continued, inside⟩

theorem takes_leading : ∀ (budget : Nat) (rule : LeadingRule) (token : Token), token.Lexed →
    Grammar.standard.leading? token.symbol = some rule →
    Takes Inside (leading .standard budget rule token)
      fun node taken cursor => Expresses (token :: taken) node ∧ Inside cursor
  | 0, _, _, _, _ => by
    rw [leading]
    exact takes_exhausted
  | budget + 1, rule, token, lexed, known => by
    have symbols := Grammar.leading?_symbols known
    cases rule with
    | atom =>
      have atom := Token.isAtom_of_symbol lexed (List.mem_singleton.1 symbols)
      rw [leading]
      exact takes_pure fun _ inside => ⟨Token.expresses_atom lexed atom, inside⟩
    | noneLiteral =>
      have found := lexed.is_keyword (List.mem_singleton.1 symbols) (by decide)
      rw [leading]
      exact takes_pure fun _ inside => ⟨Token.expresses_none found _, inside⟩
    | group =>
      have opening := lexed.is_mark (List.mem_singleton.1 symbols) (by decide)
      rw [leading]
      refine (takes_expression budget _).bind fun inner taken => .given fun grouped => ?_
      -- of the parentheses nothing is kept but where they stand
      refine takes_punctuator.bind fun close further => .given ?_
      rintro ⟨rfl, closing⟩
      exact takes_pure fun _ inside => ⟨grouped.group opening closing _, inside⟩
    | array =>
      have opening := lexed.is_mark (List.mem_singleton.1 symbols) (by decide)
      rw [leading]
      refine (takes_sequence budget "]" [] (.inr rfl)).bind fun found taken => .given ?_
      obtain ⟨items, close⟩ := found
      rintro ⟨parts, same, listed⟩
      obtain rfl : items = parts := same
      refine takes_pure fun _ inside => ⟨?_, inside⟩
      rw [List.append_nil]
      exact listed.array opening _
    | unary precedence =>
      rw [leading]
      split
      · exact takes_fail
      · rename_i operator stands
        have found := lexed.is_mark rfl (Token.unary_marks _ symbols)
        refine (takes_expression budget precedence).bind fun operand taken => .given fun one => ?_
        refine takes_pure fun _ inside => ⟨?_, inside⟩
        rw [List.append_nil]
        exact one.unary found symbols stands _ _

theorem takes_trailing : ∀ (budget least : Nat) (left : Node),
    Takes Inside (trailing .standard budget least left)
      fun node taken cursor => Extends taken left node ∧ Inside cursor
  | 0, _, _ => by
    rw [trailing]
    exact takes_exhausted
  | budget + 1, least, left => by
    rw [trailing]
    refine takes_peek.bind fun token taken => .given ?_
    rintro rfl
    split
    · exact takes_pure fun _ ready => ⟨Token.extends_refl left, ready.2⟩
    · rename_i rule known
      split
      · have content := Token.isContent_of_trailing known
        refine (takes_next (TokenKind.ne_of_isContent content)).bind fun found taken => .given ?_
        rintro ⟨rfl, rfl, lexed⟩
        rw [content]
        refine (takes_join budget rule left found lexed known).bind fun joined taken =>
          .given fun first => ?_
        refine (takes_trailing budget least joined).mono fun node further cursor => ?_
        rintro ⟨second, inside⟩
        exact ⟨first.trans second, inside⟩
      · exact takes_pure fun _ ready => ⟨Token.extends_refl left, ready.2⟩

theorem takes_join : ∀ (budget : Nat) (rule : TrailingRule) (left : Node) (token : Token), token.Lexed →
    Grammar.standard.trailing? token.symbol = some rule →
    Takes Inside (join .standard budget rule left token)
      fun node taken cursor => Extends (token :: taken) left node ∧ Inside cursor
  | 0, _, _, _, _, _ => by
    rw [join]
    exact takes_exhausted
  | budget + 1, ⟨form, precedence⟩, left, token, lexed, known => by
    have symbols := Grammar.trailing?_symbols known
    cases form with
    | binary =>
      rw [join]
      dsimp only
      split
      · exact takes_fail
      · rename_i operator stands
        have found := lexed.is_mark rfl (Token.binary_marks _ symbols)
        refine (takes_expression budget precedence).bind fun right taken => .given fun operand => ?_
        refine takes_pure fun _ inside => ⟨?_, inside⟩
        rw [List.append_nil]
        exact operand.binary found symbols stands _ _
    | assign =>
      have found := lexed.is_mark (List.mem_singleton.1 symbols) (by decide)
      rw [join]
      dsimp only
      split
      · refine (takes_expression budget precedence).bind fun right taken => .given fun value => ?_
        refine takes_pure fun _ inside => ⟨?_, inside⟩
        rw [List.append_nil]
        exact value.assigned found _
      · exact takes_fail
    | call =>
      have opening := lexed.is_mark (List.mem_singleton.1 symbols) (by decide)
      rw [join]
      refine (takes_sequence budget ")" [] (.inl rfl)).bind fun found taken => .given ?_
      obtain ⟨items, close⟩ := found
      rintro ⟨parts, same, listed⟩
      obtain rfl : items = parts := same
      refine takes_pure fun _ inside => ⟨?_, inside⟩
      rw [List.append_nil]
      exact listed.call opening _
    | subscript =>
      have opening := lexed.is_mark (List.mem_singleton.1 symbols) (by decide)
      rw [join]
      refine takes_atPunctuator.bind fun missing taken => .given ?_
      rintro rfl
      split
      · exact takes_refused
      · refine (takes_expression budget _).bind fun start taken => .given fun first => ?_
        -- a colon tells a slice from an element
        refine takes_punctuator?.bind fun colon between => ?_
        cases colon with
        | some colon =>
          refine .given ?_
          rintro ⟨rfl, found⟩
          refine (takes_expression budget _).bind fun stop more => .given fun second => ?_
          refine takes_punctuator.bind fun close last => .given ?_
          rintro ⟨rfl, closing⟩
          exact takes_pure fun _ inside => ⟨first.slice opening found second closing _, inside⟩
        | none =>
          refine .given ?_
          rintro rfl
          refine takes_punctuator.bind fun close last => .given ?_
          rintro ⟨rfl, closing⟩
          exact takes_pure fun _ inside => ⟨first.element opening closing _, inside⟩

theorem takes_sequence : ∀ {pre : Cursor → Prop} (budget : Nat) (close : String) (read : List Node),
    close = ")" ∨ close = "]" →
    Takes pre (sequence .standard budget close read) fun found taken cursor =>
      (∃ items, found.1 = read.reverse ++ items ∧ Lists close taken items) ∧ Inside cursor
  | _, 0, _, _, _ => by
    rw [sequence]
    exact takes_exhausted
  | _, budget + 1, close, read, bracket => by
    rw [sequence]
    refine takes_punctuator?.bind fun closing taken => ?_
    cases closing with
    | some token =>
      refine .given ?_
      rintro ⟨rfl, found⟩
      refine takes_pure fun _ inside => ⟨⟨[], (List.append_nil _).symm, ?_⟩, inside⟩
      exact Token.lists_nil bracket found
    | none =>
      refine .given ?_
      rintro rfl
      refine (takes_expression budget _).bind fun item taken => .given fun one => ?_
      -- behind a comma the list may be closed at once: then no further part is read
      refine takes_punctuator?.bind fun comma between => ?_
      cases comma with
      | some token =>
        refine .given ?_
        rintro ⟨rfl, found⟩
        refine (takes_sequence budget close (item :: read) bracket).mono fun result more cursor => ?_
        rintro ⟨⟨items, same, listed⟩, inside⟩
        refine ⟨⟨item :: items, ?_, one.separated found listed⟩, inside⟩
        rw [same, List.reverse_cons, List.append_assoc, List.singleton_append]
      | none =>
        refine .given ?_
        rintro rfl
        refine takes_punctuator.bind fun token last => .given ?_
        rintro ⟨rfl, found⟩
        refine takes_pure fun _ inside => ⟨⟨[item], ?_, one.last bracket found⟩, inside⟩
        rw [List.reverse_cons]

end

end Parser

end TabScript
