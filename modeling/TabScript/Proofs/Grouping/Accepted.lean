import TabScript.Proofs.Grouping.Suffixes
import TabScript.Proofs.Spelling.Expressions

/-! Nothing else is read as an expression.

Where the reader stops behind an expression, what it has taken is one of the texts of the tree that it gives, and
what comes next binds neither more strongly than the text ends nor more strongly than was asked for. -/

set_option autoImplicit false

namespace TabScript

open Token (mark keyword layout)

def Cursor.pull (cursor : Cursor) : Nat := Grammar.standard.precedence cursor.peek.symbol

namespace Grammar

variable {symbol : String}

theorem precedence_le_suffix (symbol : String) : standard.precedence symbol ≤ Precedence.suffix := by
  have all : ∀ entry ∈ standard.trailing, entry.2.precedence ≤ Precedence.suffix := by decide
  rw [precedence]
  cases found : standard.trailing? symbol with
  | none => exact Nat.zero_le _
  | some rule =>
    obtain ⟨before, after, entries, -⟩ := List.lookup_eq_some_iff.1 found
    exact all (symbol, rule) (by rw [entries]; simp)

theorem unary_eq {power : Nat} (known : standard.leading? symbol = some (.unary power)) :
    power = Precedence.unary := by
  have all : ∀ entry ∈ standard.leading, ∀ power, entry.2 = .unary power → power = Precedence.unary := by
    simp [standard]
  obtain ⟨before, after, entries, -⟩ := List.lookup_eq_some_iff.1 known
  exact all (symbol, .unary power) (by rw [entries]; simp) power rfl

theorem trailing?_power {rule : TrailingRule} (known : standard.trailing? symbol = some rule) :
    (rule.form = .assign → rule.precedence = Precedence.assignment) ∧
      (rule.form = .call ∨ rule.form = .subscript → rule.precedence = Precedence.suffix) := by
  have all : ∀ entry ∈ standard.trailing,
      (entry.2.form = .assign → entry.2.precedence = Precedence.assignment) ∧
        (entry.2.form = .call ∨ entry.2.form = .subscript → entry.2.precedence = Precedence.suffix) := by decide
  obtain ⟨before, after, entries, -⟩ := List.lookup_eq_some_iff.1 known
  exact all (symbol, rule) (by rw [entries]; simp)

end Grammar

theorem Token.bare_of_is {token : Token} {characters : String} (found : token.is .punctuator characters = true) :
    token.bare = mark characters := by
  obtain ⟨kind, value, span⟩ := token
  obtain ⟨rfl, rfl⟩ := Token.is_iff.1 found
  rfl

namespace Parser

variable {α : Type} {pre : Cursor → Prop} {post : α → List Token → Cursor → Prop}

theorem Takes.learn {parser : Parser α} {known : Prop} (learn : ∀ cursor, pre cursor → known)
    (takes : known → Takes pre parser post) : Takes pre parser post :=
  fun cursor value after sound ready read => takes (learn cursor ready) cursor value after sound ready read

/-- The words are an expression behind an operator that is as strong as `least`, and what comes next leaves it
together. -/
def Phrased (least : Nat) (words : List Token) (node : Node) (cursor : Cursor) : Prop :=
  ∃ front back, (Phrase front back (words.map Token.bare) node.bare ∧ least < front) ∧
    cursor.pull ≤ back ∧ Inside cursor

theorem Phrased.of {least front back : Nat} {words : List Token} {node : Node} {cursor : Cursor}
    (phrase : Phrase front back (words.map Token.bare) node.bare) (binds : least < front)
    (fits : cursor.pull ≤ back) (inside : Inside cursor) : Phrased least words node cursor :=
  ⟨front, back, ⟨phrase, binds⟩, fits, inside⟩

theorem Phrased.closed {least front : Nat} {words : List Token} {node : Node} {cursor : Cursor}
    (phrase : Phrase front Precedence.closed (words.map Token.bare) node.bare) (binds : least < front)
    (inside : Inside cursor) : Phrased least words node cursor :=
  .of phrase binds (Nat.le_succ_of_le (Grammar.precedence_le_suffix _)) inside

theorem Takes.phrased {parser : Parser α} {least : Nat} {words : List Token} {node : Node}
    (takes : ∀ front back, Phrase front back (words.map Token.bare) node.bare → least < front →
      Takes (fun cursor => cursor.pull ≤ back ∧ Inside cursor) parser post) :
    Takes (Phrased least words node) parser post := by
  rintro cursor value after sound ⟨front, back, ⟨phrase, binds⟩, fits, inside⟩ read
  exact takes front back phrase binds cursor value after sound ⟨fits, inside⟩ read

def Listing (close : String) (words : List Token) (nodes : List Node) : Prop :=
  ∃ items comma, Node.bareAll nodes = items.map Operand.node ∧ (∀ item ∈ items, item.IsPhrase) ∧
    words.map Token.bare = Operand.listed comma items ++ [mark close]

theorem listing_nil {close : String} {token : Token} (found : token.is .punctuator close = true) :
    Listing close [token] [] :=
  ⟨[], false, by rw [Node.bareAll]; rfl, nofun, by rw [List.map_singleton, Token.bare_of_is found]; rfl⟩

section

variable {close : String} {front back : Nat} {words more : List Token} {node : Node} {nodes : List Node}
  {token : Token}

theorem listing_last (phrase : Phrase front back (words.map Token.bare) node.bare)
    (found : token.is .punctuator close = true) : Listing close (words ++ [token]) [node] := by
  refine ⟨[⟨front, back, words.map Token.bare, node.bare⟩], false, ?_, List.forall_mem_singleton.2 phrase, ?_⟩
  · rw [Node.bareAll, Node.bareAll]
    rfl
  · rw [List.map_append, List.map_singleton, Token.bare_of_is found, Operand.listed]
    simp

theorem Listing.separated (others : Listing close more nodes)
    (phrase : Phrase front back (words.map Token.bare) node.bare) (found : token.is .punctuator "," = true) :
    Listing close (words ++ token :: more) (node :: nodes) := by
  obtain ⟨items, comma, same, all, split⟩ := others
  let first : Operand := ⟨front, back, words.map Token.bare, node.bare⟩
  -- if the list is closed behind the comma, that one is left over
  obtain ⟨comma', listed⟩ : ∃ comma', Operand.listed comma' (first :: items) =
      first.words ++ mark "," :: Operand.listed comma items := by
    cases items with
    | nil => exact ⟨true, rfl⟩
    | cons item items => exact ⟨comma, rfl⟩
  refine ⟨first :: items, comma', ?_, List.forall_mem_cons.2 ⟨phrase, all⟩, ?_⟩
  · rw [Node.bareAll, same]
    rfl
  · rw [List.map_append, List.map_cons, Token.bare_of_is found, split, listed, List.append_assoc]
    rfl

end

/-! The constructions of expressions, over tokens and trees with their places. -/

section

variable {front back front' back' : Nat} {words words' : List Token} {node left right : Node}
  {token close colon : Token} {nodes : List Node} {operator : Operator} {span operatorSpan : Span}

theorem phrase_none (found : token.is .keyword "None" = true) :
    Phrase Precedence.closed Precedence.closed ([token].map Token.bare) (Node.literal span none).bare := by
  obtain ⟨kind, value, place⟩ := token
  obtain ⟨rfl, rfl⟩ := Token.is_iff.1 found
  rw [Node.bare]
  exact .none

theorem phrase_group (opening : token.is .punctuator "(" = true) (closing : close.is .punctuator ")" = true)
    (inner : Phrase front back (words.map Token.bare) node.bare) :
    Phrase Precedence.closed Precedence.closed ((token :: (words ++ [close])).map Token.bare)
      (node.withSpan span).bare := by
  rw [Node.bare_withSpan, List.map_cons, List.map_append, List.map_singleton, Token.bare_of_is opening,
    Token.bare_of_is closing]
  exact .group inner

theorem phrase_array (opening : token.is .punctuator "[" = true) (listed : Listing "]" words nodes) :
    Phrase Precedence.closed Precedence.closed ((token :: words).map Token.bare) (Node.array span nodes).bare := by
  obtain ⟨items, comma, same, all, split⟩ := listed
  rw [Node.bare, same, List.map_cons, split, Token.bare_of_is opening]
  exact .array comma all

theorem phrase_unary (found : token.is .punctuator token.symbol = true)
    (known : Operator.unary? token.symbol = some operator)
    (operand : Phrase front back (words.map Token.bare) node.bare) (binds : Precedence.unary < front) :
    Phrase Precedence.closed (min Precedence.unary back) ((token :: words).map Token.bare)
      (Node.unary span operator operatorSpan node).bare := by
  rw [Node.bare, List.map_cons, Token.bare_of_is found]
  exact .unary known operand binds

theorem phrase_binary (found : token.is .punctuator token.symbol = true)
    (known : Operator.binary? token.symbol = some operator)
    (first : Phrase front back (words.map Token.bare) left.bare)
    (fits : Grammar.standard.precedence token.symbol ≤ back)
    (second : Phrase front' back' (words'.map Token.bare) right.bare)
    (binds : Grammar.standard.precedence token.symbol < front') :
    Phrase (min front (Grammar.standard.precedence token.symbol))
      (min (Grammar.standard.precedence token.symbol) back') ((words ++ token :: words').map Token.bare)
      (Node.binary span operator operatorSpan left right).bare := by
  rw [Node.bare, List.map_append, List.map_cons, Token.bare_of_is found]
  exact .binary known first fits second binds

variable (target : Phrase front back (words.map Token.bare) node.bare) (fits : Precedence.suffix ≤ back)
include target fits

theorem phrase_call (opening : token.is .punctuator "(" = true) (listed : Listing ")" words' nodes) :
    Phrase (min front Precedence.suffix) Precedence.closed ((words ++ token :: words').map Token.bare)
      (Node.call span node nodes).bare := by
  obtain ⟨items, comma, same, all, split⟩ := listed
  rw [Node.bare, same, List.map_append, List.map_cons, split, Token.bare_of_is opening]
  exact .suffix target fits (.call items comma) all

theorem phrase_element (opening : token.is .punctuator "[" = true) (closing : close.is .punctuator "]" = true)
    (index : Phrase front' back' (words'.map Token.bare) left.bare) :
    Phrase (min front Precedence.suffix) Precedence.closed
      ((words ++ token :: (words' ++ [close])).map Token.bare) (Node.element span node left).bare := by
  rw [Node.bare, List.map_append, List.map_cons, List.map_append, List.map_singleton, Token.bare_of_is opening,
    Token.bare_of_is closing]
  exact .suffix target fits (.element ⟨_, _, _, _⟩) (List.forall_mem_singleton.2 index)

theorem phrase_slice {more : List Token} {front₂ back₂ : Nat} (opening : token.is .punctuator "[" = true)
    (between : colon.is .punctuator ":" = true) (closing : close.is .punctuator "]" = true)
    (start : Phrase front' back' (words'.map Token.bare) left.bare)
    (stop : Phrase front₂ back₂ (more.map Token.bare) right.bare) :
    Phrase (min front Precedence.suffix) Precedence.closed
      ((words ++ token :: (words' ++ colon :: (more ++ [close]))).map Token.bare)
      (Node.slice span node left right).bare := by
  simp only [Node.bare, List.map_append, List.map_cons, List.map_nil, Token.bare_of_is opening,
    Token.bare_of_is between, Token.bare_of_is closing]
  exact .suffix target fits (.slice ⟨_, _, _, _⟩ ⟨_, _, _, _⟩)
    (List.forall_mem_cons.2 ⟨start, List.forall_mem_singleton.2 stop⟩)

end

-- By induction on the budget, which every call lowers. An expression that is read as an operand is wanted by an
-- operator or between brackets, and nothing in it is as weak as an assignment.
mutual

theorem phrased_expression : ∀ {pre : Cursor → Prop} (budget least : Nat),
    Precedence.assignment ≤ least → least ≤ Precedence.suffix →
    Takes pre (expression .standard budget least)
      fun node taken cursor => Phrased least taken node cursor ∧ cursor.pull ≤ least
  | _, 0, _, _, _ => by
    rw [expression]
    exact takes_exhausted
  | _, budget + 1, least, low, high => by
    rw [expression]
    refine takes_peek.bind fun token taken => .given ?_
    rintro rfl
    split
    · exact takes_unexpected
    · rename_i rule known
      have content := Token.isContent_of_leading known
      refine (takes_next (TokenKind.ne_of_isContent content)).bind fun found taken => .given ?_
      rintro ⟨rfl, rfl, lexed⟩
      rw [content]
      refine (phrased_leading budget rule found lexed known least high).bind fun left taken => ?_
      exact phrased_trailing budget least left (found :: taken) low high

theorem phrased_leading : ∀ (budget : Nat) (rule : LeadingRule) (token : Token), token.Lexed →
    Grammar.standard.leading? token.symbol = some rule → ∀ least, least ≤ Precedence.suffix →
    Takes Inside (leading .standard budget rule token)
      fun node taken cursor => Phrased least (token :: taken) node cursor
  | 0, _, _, _, _, _, _ => by
    rw [leading]
    exact takes_exhausted
  | budget + 1, rule, token, lexed, known, least, high => by
    have symbols := Grammar.leading?_symbols known
    have binds : least < Precedence.closed := Nat.lt_succ_of_le high
    cases rule with
    | atom =>
      have value := Token.isAtom_of_symbol lexed (List.mem_singleton.1 symbols)
      have phrase := Phrase.atom value
      rw [← bare_atom] at phrase
      rw [leading]
      exact takes_pure fun _ inside => .closed phrase binds inside
    | noneLiteral =>
      have found := lexed.is_keyword (List.mem_singleton.1 symbols) (by decide)
      rw [leading]
      exact takes_pure fun _ inside => .closed (phrase_none found) binds inside
    | group =>
      have opening := lexed.is_mark (List.mem_singleton.1 symbols) (by decide)
      rw [leading]
      refine (phrased_expression budget _ (Nat.le_refl _) (by decide)).bind fun inner taken =>
        .weaken (.phrased fun front back phrase _ => ?_) fun _ => And.left
      refine takes_punctuator.bind fun close further => .given ?_
      rintro ⟨rfl, closing⟩
      exact takes_pure fun _ inside => .closed (phrase_group opening closing phrase) binds inside
    | array =>
      have opening := lexed.is_mark (List.mem_singleton.1 symbols) (by decide)
      rw [leading]
      refine (phrased_sequence budget "]" []).bind fun found taken => .given ?_
      obtain ⟨items, close⟩ := found
      rintro ⟨parts, same, listed⟩
      obtain rfl : items = parts := same
      refine takes_pure fun _ inside => .closed ?_ binds inside
      rw [List.append_nil]
      exact phrase_array opening listed
    | unary precedence =>
      obtain rfl := Grammar.unary_eq known
      rw [leading]
      split
      · exact takes_fail
      · rename_i operator stands
        have found := lexed.is_mark rfl (Token.unary_marks _ symbols)
        refine (phrased_expression budget _ (by decide) (by decide)).bind fun operand taken => takes_pure ?_
        rintro cursor ⟨⟨front, back, ⟨phrase, tight⟩, fits, inside⟩, weak⟩
        rw [List.append_nil]
        exact .of (phrase_unary found stands phrase tight) binds (Nat.le_min.2 ⟨weak, fits⟩) inside

theorem phrased_trailing : ∀ (budget least : Nat) (left : Node) (read : List Token),
    Precedence.assignment ≤ least → least ≤ Precedence.suffix →
    Takes (Phrased least read left) (trailing .standard budget least left)
      fun node taken cursor => Phrased least (read ++ taken) node cursor ∧ cursor.pull ≤ least
  | 0, _, _, _, _, _ => by
    rw [trailing]
    exact takes_exhausted
  | budget + 1, least, left, read, low, high => by
    rw [trailing]
    refine .phrased fun front back phrase binds => takes_peek.bind fun token taken => .given ?_
    rintro rfl
    split
    · rename_i unknown
      refine takes_pure ?_
      rintro cursor ⟨rfl, fits, inside⟩
      rw [List.append_nil, List.append_nil]
      refine ⟨.of phrase binds fits inside, ?_⟩
      rw [Cursor.pull, Grammar.precedence, unknown]
      exact Nat.zero_le _
    · rename_i rule known
      have strength := Grammar.precedence_of_rule known
      split
      · rename_i strong
        have content := Token.isContent_of_trailing known
        -- what was read leaves its end to this token, which is thus not too strong for it
        have tight : ∀ cursor : Cursor, token = cursor.peek ∧ cursor.pull ≤ back ∧ Inside cursor →
            rule.precedence ≤ back := by
          rintro cursor ⟨rfl, fits, -⟩
          rwa [← strength]
        refine .learn tight fun fits => ?_
        refine (takes_next (TokenKind.ne_of_isContent content)).bind fun found taken => .given ?_
        rintro ⟨rfl, rfl, lexed⟩
        rw [content]
        refine (phrased_join budget rule left found lexed known least read front back low strong phrase binds
          fits).bind fun joined taken => ?_
        refine (phrased_trailing budget least joined (read ++ found :: taken) low high).mono
          fun node further cursor => ?_
        rw [List.append_assoc]
        exact id
      · rename_i weak
        refine takes_pure ?_
        rintro cursor ⟨rfl, fits, inside⟩
        rw [List.append_nil, List.append_nil]
        refine ⟨.of phrase binds fits inside, ?_⟩
        rw [Cursor.pull, strength]
        exact Nat.le_of_not_lt weak

theorem phrased_join : ∀ (budget : Nat) (rule : TrailingRule) (left : Node) (token : Token), token.Lexed →
    Grammar.standard.trailing? token.symbol = some rule → ∀ (least : Nat) (read : List Token) (front back : Nat),
    Precedence.assignment ≤ least → least < rule.precedence →
    Phrase front back (read.map Token.bare) left.bare → least < front → rule.precedence ≤ back →
    Takes Inside (join .standard budget rule left token)
      fun node taken cursor => Phrased least (read ++ token :: taken) node cursor
  | 0, _, _, _, _, _, _, _, _, _, _, _, _, _, _ => by
    rw [join]
    exact takes_exhausted
  | budget + 1, ⟨form, precedence⟩, left, token, lexed, known, least, read, front, back, low, strong, phrase,
      binds, fits => by
    have symbols := Grammar.trailing?_symbols known
    have powers := Grammar.trailing?_power known
    have strength : Grammar.standard.precedence token.symbol = precedence := Grammar.precedence_of_rule known
    have strong : least < precedence := strong
    have fits : precedence ≤ back := fits
    cases form with
    | binary =>
      rw [join]
      dsimp only
      split
      · exact takes_fail
      · rename_i operator stands
        have found := lexed.is_mark rfl (Token.binary_marks _ symbols)
        refine (phrased_expression budget precedence (by omega) ?_).bind fun right taken => takes_pure ?_
        · exact strength ▸ Grammar.precedence_le_suffix _
        rintro cursor ⟨⟨front', back', ⟨second, tight⟩, fits', inside⟩, weak⟩
        rw [← strength] at fits tight weak strong
        rw [List.append_nil]
        exact .of (phrase_binary found stands phrase fits second tight) (Nat.lt_min.2 ⟨binds, strong⟩)
          (Nat.le_min.2 ⟨weak, fits'⟩) inside
    -- an assignment is too weak to be read here
    | assign => exact absurd strong (by rw [powers.1 rfl]; exact Nat.not_lt.2 low)
    | call =>
      have opening := lexed.is_mark (List.mem_singleton.1 symbols) (by decide)
      obtain rfl : precedence = Precedence.suffix := powers.2 (.inl rfl)
      rw [join]
      refine (phrased_sequence budget ")" []).bind fun found taken => .given ?_
      obtain ⟨items, close⟩ := found
      rintro ⟨parts, same, listed⟩
      obtain rfl : items = parts := same
      refine takes_pure fun _ inside => .closed ?_ (Nat.lt_min.2 ⟨binds, strong⟩) inside
      rw [List.append_nil]
      exact phrase_call phrase fits opening listed
    | subscript =>
      have opening := lexed.is_mark (List.mem_singleton.1 symbols) (by decide)
      obtain rfl : precedence = Precedence.suffix := powers.2 (.inr rfl)
      rw [join]
      refine takes_atPunctuator.bind fun missing taken => .given ?_
      rintro rfl
      split
      · exact takes_refused
      · refine (phrased_expression budget _ (Nat.le_refl _) (by decide)).bind fun start taken =>
          .weaken (.phrased fun front' back' first _ => ?_) fun _ => And.left
        -- a colon tells a slice from an element
        refine takes_punctuator?.bind fun colon between => ?_
        cases colon with
        | some colon =>
          refine .given ?_
          rintro ⟨rfl, found⟩
          refine (phrased_expression budget _ (Nat.le_refl _) (by decide)).bind fun stop more =>
            .weaken (.phrased fun front₂ back₂ second _ => ?_) fun _ => And.left
          refine takes_punctuator.bind fun close last => .given ?_
          rintro ⟨rfl, closing⟩
          exact takes_pure fun _ inside => .closed (phrase_slice phrase fits opening found closing first second)
            (Nat.lt_min.2 ⟨binds, strong⟩) inside
        | none =>
          refine .given ?_
          rintro rfl
          refine takes_punctuator.bind fun close last => .given ?_
          rintro ⟨rfl, closing⟩
          exact takes_pure fun _ inside => .closed (phrase_element phrase fits opening closing first)
            (Nat.lt_min.2 ⟨binds, strong⟩) inside

theorem phrased_sequence : ∀ {pre : Cursor → Prop} (budget : Nat) (close : String) (read : List Node),
    Takes pre (sequence .standard budget close read) fun found taken cursor =>
      (∃ nodes, found.1 = read.reverse ++ nodes ∧ Listing close taken nodes) ∧ Inside cursor
  | _, 0, _, _ => by
    rw [sequence]
    exact takes_exhausted
  | _, budget + 1, close, read => by
    rw [sequence]
    refine takes_punctuator?.bind fun closing taken => ?_
    cases closing with
    | some token =>
      refine .given ?_
      rintro ⟨rfl, found⟩
      refine takes_pure fun _ inside => ⟨⟨[], (List.append_nil _).symm, ?_⟩, inside⟩
      exact listing_nil found
    | none =>
      refine .given ?_
      rintro rfl
      refine (phrased_expression budget _ (Nat.le_refl _) (by decide)).bind fun item taken =>
        .weaken (.phrased fun front back phrase _ => ?_) fun _ => And.left
      refine takes_punctuator?.bind fun comma between => ?_
      cases comma with
      | some token =>
        refine .given ?_
        rintro ⟨rfl, found⟩
        refine (phrased_sequence budget close (item :: read)).mono fun result more cursor => ?_
        rintro ⟨⟨nodes, same, listed⟩, inside⟩
        refine ⟨⟨item :: nodes, ?_, listed.separated phrase found⟩, inside⟩
        rw [same, List.reverse_cons, List.append_assoc, List.singleton_append]
      | none =>
        refine .given ?_
        rintro rfl
        refine takes_punctuator.bind fun token last => .given ?_
        rintro ⟨rfl, found⟩
        refine takes_pure fun _ inside => ⟨⟨[item], ?_, listing_last phrase found⟩, inside⟩
        rw [List.reverse_cons]

end

end Parser

/-- The words that are read as an expression, wherever one can stand, are those of its texts. -/
theorem Token.means_iff {words : List Token} {node : Node}
    (written : ∀ word ∈ words, word.Lexed ∧ word.kind.isContent = true) (bare : words.map Token.bare = words) :
    Means words node ↔ ∃ front back, Phrase front back words node.bare := by
  constructor
  · intro means
    -- the words on a line of their own, behind a token that leaves the line open
    let cursor : Cursor := ⟨some (mark ","), words ++ [layout .newline], layout .endOfProgram⟩
    have sound : cursor.Sound := by
      refine ⟨List.forall_mem_append.2 ⟨?_, List.forall_mem_singleton.2 ⟨trivial, nofun⟩⟩, ?_, rfl⟩
      · exact fun word inside => ⟨(written word inside).1, TokenKind.ne_of_isContent (written word inside).2⟩
      · change Lined true (words ++ [layout .newline] ++ [layout .endOfProgram])
        rw [List.append_assoc]
        have ended : Lined false [layout .endOfProgram] := ⟨nofun, trivial⟩
        exact lined_content (fun word inside => (written word inside).2) rfl ended nofun
    have ahead : cursor.Ahead (words ++ [layout .newline]) := ⟨by rw [List.map_append, bare]; rfl, rfl⟩
    obtain ⟨found, after, read, same, behind⟩ := means.inside (Nat.le_refl _) (Nat.le_refl _) rfl cursor ahead
    obtain ⟨-, taken, passes, ⟨front, back, ⟨phrase, -⟩, -⟩, -⟩ :=
      @Parser.phrased_expression (fun _ => True) _ _ (Nat.le_refl _) (by decide) _ _ _ sound trivial read
    have upcoming : words ++ [layout .newline] = taken ++ after.upcoming := passes.upcoming
    have count := congrArg List.length behind.upcoming
    rw [List.length_map] at count
    obtain ⟨rfl, -⟩ := List.append_inj' upcoming count.symm
    rw [bare, same] at phrase
    exact ⟨front, back, phrase⟩
  · rintro ⟨front, back, phrase⟩
    have same := phrase.bare_eq
    have means := phrase.means
    exact ⟨fun tokens known => same ▸ means.program tokens known,
      fun room low weak => same ▸ means.inside room low weak⟩

end TabScript
