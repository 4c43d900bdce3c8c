import TabScript.Proofs.Printing.Reads

/-! How expressions are held together.

Reading goes on behind a left operand as long as the next token binds strongly enough. So the words of an
expression are first read as a left operand, whatever stands behind them, as long as it does not bind more
strongly than the expression is held together; what comes next is left to the reader. -/

set_option autoImplicit false

namespace TabScript

open Token (mark keyword pull)

theorem Token.symbol_bare (token : Token) : token.bare.symbol = token.symbol := rfl

namespace Parser

variable {node : Node} {words rest : List Token} {budget least : Nat}

/-- The words are read as a left operand. What comes next is still to be read, with a budget that is not
much smaller. -/
def Continues (budget least : Nat) (node : Node) (words rest : List Token) : Prop :=
  ∀ cursor : Cursor, cursor.Ahead (words ++ rest) → ∃ left after later,
    expression .standard budget least cursor = trailing .standard later least left after ∧
      left.bare = node.bare ∧ after.Ahead rest ∧ budget ≤ later + words.length

theorem expression_apply (grammar : Grammar) (budget least : Nat) (cursor : Cursor) :
    expression grammar (budget + 1) least cursor =
      match grammar.leading? cursor.peek.symbol with
      | none => .error (cursor.unexpected none)
      | some rule => leading grammar budget rule cursor.peek cursor.advance >>= fun found =>
        trailing grammar budget least found.1 found.2 := by
  have unfolded : expression grammar (budget + 1) least cursor =
      (match grammar.leading? cursor.peek.symbol with
        | none => unexpected none
        | some rule => do
          let token ← next
          let left ← leading grammar budget rule token
          trailing grammar budget least left : Parser Node) cursor := by
    rw [expression]
    rfl
  rw [unfolded]
  cases grammar.leading? cursor.peek.symbol <;> rfl

theorem trailing_apply (grammar : Grammar) (budget least : Nat) (left : Node) (cursor : Cursor) :
    trailing grammar (budget + 1) least left cursor =
      match grammar.trailing? cursor.peek.symbol with
      | none => .ok (left, cursor)
      | some rule =>
        if least < rule.precedence then
          join grammar budget rule left cursor.peek cursor.advance >>= fun found =>
            trailing grammar budget least found.1 found.2
        else .ok (left, cursor) := by
  have unfolded : trailing grammar (budget + 1) least left cursor =
      (match grammar.trailing? cursor.peek.symbol with
        | none => pure left
        | some rule =>
          if least < rule.precedence then do
            let token ← next
            let joined ← join grammar budget rule left token
            trailing grammar budget least joined
          else pure left : Parser Node) cursor := by
    rw [trailing]
    rfl
  rw [unfolded]
  cases grammar.trailing? cursor.peek.symbol with
  | none => rfl
  | some rule =>
    by_cases binds : least < rule.precedence <;> simp only [binds, if_true, if_false] <;> rfl

/-- A token that does not bind strongly enough is left alone. -/
theorem trailing_stop {cursor : Cursor} (ahead : cursor.Ahead rest) (stops : pull rest ≤ least)
    (left : Node) : trailing .standard (budget + 1) least left cursor = .ok (left, cursor) := by
  have same := ahead.heads.precedence_eq
  rw [trailing_apply]
  cases found : Grammar.standard.trailing? cursor.peek.symbol with
  | none => rfl
  | some rule =>
    have strength : rule.precedence = pull rest := by
      rw [← same, Grammar.precedence, found]
      rfl
    simp only [strength, Nat.not_lt.2 stops, if_false]

theorem Continues.reads (continues : Continues budget least node words rest)
    (room : words.length < budget) (stops : pull rest ≤ least) :
    Reads (expression .standard budget least) words rest fun found => found.bare = node.bare := by
  intro cursor ahead
  obtain ⟨left, after, later, reached, same, behind, left_⟩ := continues cursor ahead
  obtain ⟨later, rfl⟩ := Nat.exists_eq_succ_of_ne_zero (show later ≠ 0 by omega)
  exact ⟨left, after, reached.trans (trailing_stop behind stops left), same, behind⟩

theorem continues_leading {word : Token} {rule : LeadingRule}
    (found : Grammar.standard.leading? word.symbol = some rule)
    (reads : ∀ token : Token, token.bare = word →
      (leading .standard budget rule token).Reads words rest fun left => left.bare = node.bare) :
    Continues (budget + 1) least node (word :: words) rest := by
  intro cursor ahead
  have heads : cursor.peek.bare = word := ahead.heads
  have known : Grammar.standard.leading? cursor.peek.symbol = some rule := by
    rw [← Token.symbol_bare, heads]
    exact found
  obtain ⟨left, after, done, same, behind⟩ := reads cursor.peek heads cursor.advance ahead.advance
  refine ⟨left, after, budget, ?_, same, behind, by simp⟩
  rw [expression_apply]
  simp only [known, done]
  rfl

theorem Continues.join {whole : Node} {more : List Token} {symbol : String} {rule : TrailingRule}
    (continues : Continues budget least node words (mark symbol :: (more ++ rest)))
    (room : words.length < budget) (found : Grammar.standard.trailing? symbol = some rule)
    (binds : least < rule.precedence)
    (reads : ∀ (left : Node) (token : Token) (later : Nat), left.bare = node.bare →
      token.bare = mark symbol → budget ≤ later + 1 + words.length →
      (join .standard later rule left token).Reads more rest fun joined => joined.bare = whole.bare) :
    Continues budget least whole (words ++ mark symbol :: more) rest := by
  intro cursor ahead
  rw [List.append_assoc, List.cons_append] at ahead
  obtain ⟨left, middle, later, reached, same, between, left_⟩ := continues cursor ahead
  obtain ⟨later, rfl⟩ := Nat.exists_eq_succ_of_ne_zero (show later ≠ 0 by omega)
  have heads : middle.peek.bare = mark symbol := between.heads
  have known : Grammar.standard.trailing? middle.peek.symbol = some rule := by
    rw [← Token.symbol_bare, heads]
    exact found
  obtain ⟨joined, after, done, fits, behind⟩ :=
    reads left middle.peek later same heads left_ middle.advance between.advance
  refine ⟨joined, after, later, ?_, fits, behind, ?_⟩
  · rw [reached, trailing_apply]
    simp only [known, binds, if_true, done]
    rfl
  · simp only [List.length_append, List.length_cons]
    omega

theorem continues_group
    (inner : Reads (expression .standard budget Precedence.assignment) words (mark ")" :: rest)
      fun found => found.bare = node.bare) :
    Continues (budget + 2) least node (mark "(" :: (words ++ [mark ")"])) rest := by
  refine continues_leading rfl fun token heads => ?_
  rw [leading]
  refine Reads.bind inner fun found same => ?_
  refine (reads_punctuator ")" rest).before fun close _ => ?_
  exact reads_pure ((Node.bare_withSpan _ _).trans same)

/-- The words are read as the node, given a budget for them, behind an operator that is weaker than `front`
and in front of one that is not stronger than `back`. -/
def Holds (front back : Nat) (node : Node) (words : List Token) : Prop :=
  ∀ ⦃budget least : Nat⦄ ⦃rest : List Token⦄, 2 * words.length + 1 ≤ budget → least < front →
    pull rest ≤ back → Continues budget least node words rest

variable {front back front' back' : Nat} {left right : Node} {words' : List Token} {symbol : String}

theorem Holds.reads (holds : Holds front back node words) (room : 2 * words.length + 1 ≤ budget)
    (binds : least < front) (stops : pull rest ≤ least) (fits : pull rest ≤ back) :
    Reads (expression .standard budget least) words rest fun found => found.bare = node.bare :=
  (holds room binds fits).reads (by omega) stops

theorem Holds.weaken (holds : Holds front back node words) (first : front' ≤ front) (last : back' ≤ back) :
    Holds front' back' node words :=
  fun _ _ _ room binds stops => holds room (Nat.lt_of_lt_of_le binds first) (Nat.le_trans stops last)

theorem holds_word {word : Token} {rule : LeadingRule}
    (found : Grammar.standard.leading? word.symbol = some rule)
    (reads : ∀ (budget : Nat) (token : Token) (rest : List Token), token.bare = word →
      (leading .standard (budget + 1) rule token).Reads [] rest fun left => left.bare = node.bare)
    (front back : Nat) : Holds front back node [word] := by
  intro budget least rest room binds stops
  rw [List.length_singleton] at room
  obtain ⟨budget, rfl⟩ : ∃ inner, budget = inner + 2 := ⟨budget - 2, by omega⟩
  exact continues_leading found fun token heads => reads budget token rest heads

theorem holds_none (span : Span) (front back : Nat) :
    Holds front back (.literal span none) [keyword "None"] := by
  refine holds_word rfl (fun budget token rest heads => ?_) front back
  rw [leading]
  exact reads_pure rfl

theorem holds_atom {word : Token} (symbol : word.symbol = Token.atom)
    (same : ∀ token : Token, token.bare = word → (atom token).bare = node.bare) (front back : Nat) :
    Holds front back node [word] := by
  have known : Grammar.standard.leading? word.symbol = some .atom := by
    rw [symbol]
    rfl
  refine holds_word known (fun budget token rest heads => ?_) front back
  rw [leading]
  exact reads_pure (same token heads)

theorem Holds.group (inner : Holds front back node words) (binds : Precedence.assignment < front)
    (front' back' : Nat) : Holds front' back' node (mark "(" :: (words ++ [mark ")"])) := by
  intro budget least rest room _ _
  simp only [List.length_cons, List.length_append, List.length_nil] at room
  obtain ⟨budget, rfl⟩ : ∃ inner, budget = inner + 2 := ⟨budget - 2, by omega⟩
  exact continues_group (inner.reads (by omega) binds (Nat.zero_le _) (Nat.zero_le _))

theorem Holds.unary {operator : Operator} {span operatorSpan : Span}
    (rule : Grammar.standard.leading? symbol = some (.unary Precedence.unary))
    (known : Operator.unary? symbol = some operator) (operand : Holds front back node words)
    (binds : Precedence.unary < front) (front' : Nat) :
    Holds front' (min Precedence.unary back) (.unary span operator operatorSpan node)
      (mark symbol :: words) := by
  intro budget least rest room _ stops
  rw [List.length_cons] at room
  obtain ⟨budget, rfl⟩ : ∃ inner, budget = inner + 2 := ⟨budget - 2, by omega⟩
  refine continues_leading rule fun token heads => ?_
  have same : token.symbol = symbol := by
    rw [← Token.symbol_bare, heads]
    rfl
  rw [leading]
  simp only [same, known]
  refine (operand.reads (by omega) binds (Nat.le_trans stops (Nat.min_le_left _ _))
    (Nat.le_trans stops (Nat.min_le_right _ _))).before fun found bare => ?_
  exact reads_pure (by rw [Node.bare, Node.bare, bare])

theorem Holds.binary {operator : Operator} {power : Nat} {span operatorSpan : Span}
    (rule : Grammar.standard.trailing? symbol = some ⟨.binary, power⟩)
    (known : Operator.binary? symbol = some operator) (first : Holds front back left words)
    (fits : power ≤ back) (second : Holds front' back' right words') (binds : power < front') :
    Holds (min front power) (min power back') (.binary span operator operatorSpan left right)
      (words ++ mark symbol :: words') := by
  intro budget least rest room weak stops
  simp only [List.length_append, List.length_cons] at room
  have strength : pull (mark symbol :: (words' ++ rest)) = power := by
    change Grammar.standard.precedence symbol = _
    rw [Grammar.precedence, rule]
    rfl
  have operand : Continues budget least left words (mark symbol :: (words' ++ rest)) :=
    first (by omega) (Nat.lt_of_lt_of_le weak (Nat.min_le_left _ _)) (strength ▸ fits)
  refine operand.join (by omega) rule (Nat.lt_of_lt_of_le weak (Nat.min_le_right _ _))
    fun left' token later bare heads enough => ?_
  have same : token.symbol = symbol := by
    rw [← Token.symbol_bare, heads]
    rfl
  obtain ⟨later, rfl⟩ : ∃ inner, later = inner + 1 := ⟨later - 1, by omega⟩
  rw [join]
  simp only [same, known]
  refine (second.reads (by omega) binds (Nat.le_trans stops (Nat.min_le_left _ _))
    (Nat.le_trans stops (Nat.min_le_right _ _))).before fun found bare' => ?_
  exact reads_pure (by rw [Node.bare, Node.bare, bare, bare'])

theorem Holds.suffix {whole : Node} {form : TrailingForm}
    (rule : Grammar.standard.trailing? symbol = some ⟨form, Precedence.suffix⟩)
    (target : Holds front back node words) (fits : Precedence.suffix ≤ back)
    (reads : ∀ (left : Node) (token : Token) (later : Nat) (rest : List Token), left.bare = node.bare →
      2 * words'.length + 1 ≤ later →
      (join .standard later ⟨form, Precedence.suffix⟩ left token).Reads words' rest
        fun joined => joined.bare = whole.bare) (back' : Nat) :
    Holds (min front Precedence.suffix) back' whole (words ++ mark symbol :: words') := by
  intro budget least rest room weak _
  simp only [List.length_append, List.length_cons] at room
  have strength : pull (mark symbol :: (words' ++ rest)) = Precedence.suffix := by
    change Grammar.standard.precedence symbol = _
    rw [Grammar.precedence, rule]
    rfl
  have operand : Continues budget least node words (mark symbol :: (words' ++ rest)) :=
    target (by omega) (Nat.lt_of_lt_of_le weak (Nat.min_le_left _ _)) (strength ▸ fits)
  exact operand.join (by omega) rule (Nat.lt_of_lt_of_le weak (Nat.min_le_right _ _))
    fun left token later same _ enough => reads left token later rest same (by omega)

end Parser

/-- An expression that stands among others: how it is held together, its words and what they stand for. -/
structure Operand where
  front : Nat
  back : Nat
  words : List Token
  node : Node

namespace Operand

open TabScript.Parser

structure Held (item : Operand) : Prop where
  holds : Holds item.front item.back item.node item.words
  binds : Precedence.assignment < item.front
  opens : ∃ first others, item.words = first :: others ∧ first.Opens

/-- Expressions with commas between them. A comma may stand behind the last one as well. -/
def listed (comma : Bool) : List Operand → List Token
  | [] => []
  | [item] => item.words ++ if comma then [mark ","] else []
  | item :: others => item.words ++ mark "," :: listed comma others

variable {item : Operand} {rest : List Token} {budget : Nat}

theorem Held.headIs (held : item.Held) {text : String} (closing : Grammar.standard.leading? text = none)
    (words : List Token) : Token.headIs .punctuator text (item.words ++ words) = false := by
  obtain ⟨first, others, begins, opens⟩ := held.opens
  rw [begins, List.cons_append, Token.headIs, Bool.eq_false_iff]
  intro found
  simp only [Token.is, Bool.and_eq_true, beq_iff_eq] at found
  rw [Token.Opens, Token.symbol, found.1] at opens
  simp only [found.2, Option.getD_some, closing] at opens
  cases opens

theorem Held.reads (held : item.Held) (room : 2 * item.words.length + 1 ≤ budget) {symbol : String}
    (weak : Grammar.standard.precedence symbol = 0) (more : List Token) :
    Reads (expression .standard budget Precedence.assignment) item.words (mark symbol :: more)
      fun found => found.bare = item.node.bare := by
  have stops : pull (mark symbol :: more) = 0 := weak
  exact held.holds.reads room held.binds (stops ▸ Nat.zero_le _) (stops ▸ Nat.zero_le _)

theorem reads_sequence {close : String} (closing : close = ")" ∨ close = "]") (comma : Bool)
    {items : List Operand} (all : ∀ item ∈ items, item.Held) (read : List Node)
    (room : 2 * (listed comma items).length + 2 ≤ budget) :
    Reads (Parser.sequence .standard budget close read) (listed comma items ++ [mark close]) rest
      fun found => Node.bareAll found.1 = Node.bareAll read.reverse ++ Node.bareAll (items.map node) := by
  have unopened : Grammar.standard.leading? close = none := by
    rcases closing with rfl | rfl <;> rfl
  have weak : Grammar.standard.precedence close = 0 := by
    rcases closing with rfl | rfl <;> rfl
  have noComma : Token.headIs .punctuator "," (mark close :: rest) = false := by
    rcases closing with rfl | rfl <;> rfl
  induction items generalizing budget read with
  | nil =>
    obtain ⟨budget, rfl⟩ : ∃ inner, budget = inner + 1 := ⟨budget - 1, by omega⟩
    rw [Parser.sequence]
    refine (reads_punctuator?_some close rest).before fun found closed => ?_
    obtain ⟨token, rfl, -⟩ := closed
    exact reads_pure (by simp only [List.map_nil, Node.bareAll, List.append_nil])
  | cons item others ih =>
    obtain ⟨held, all⟩ := List.forall_mem_cons.1 all
    obtain ⟨budget, rfl⟩ : ∃ inner, budget = inner + 1 := ⟨budget - 1, by omega⟩
    have added : ∀ found : Node, found.bare = item.node.bare →
        Node.bareAll (found :: read).reverse = Node.bareAll read.reverse ++ Node.bareAll [item.node] := by
      intro found same
      rw [List.reverse_cons, Node.bareAll_append, Node.bareAll, same]
      rfl
    rw [Parser.sequence]
    -- the last item has no comma behind it, unless one is left over, and all others have
    by_cases last : others = [] ∧ comma = false
    · obtain ⟨rfl, rfl⟩ := last
      have alone : listed false [item] = item.words := List.append_nil _
      rw [alone] at room ⊢
      refine Reads.after (reads_punctuator?_none ?_) fun found closed => ?_
      · rw [List.append_assoc]
        exact held.headIs unopened _
      obtain rfl : found = none := closed
      refine Reads.bind (held.reads (by omega) weak rest) fun found same => ?_
      refine Reads.after (reads_punctuator?_none noComma) fun found' spent => ?_
      obtain rfl : found' = none := spent
      refine (reads_punctuator close rest).before fun token _ => ?_
      exact reads_pure (added found same)
    · have split : listed comma (item :: others) = item.words ++ mark "," :: listed comma others := by
        cases others with
        | nil =>
          have more : comma = true := by simpa using last
          subst more
          rfl
        | cons second others => rfl
      rw [split, List.length_append, List.length_cons] at room
      rw [split, List.append_assoc, List.cons_append]
      refine Reads.after (reads_punctuator?_none ?_) fun found closed => ?_
      · rw [List.append_assoc]
        exact held.headIs unopened _
      obtain rfl : found = none := closed
      refine Reads.bind (held.reads (by omega) (by decide) _) fun found same => ?_
      refine @Reads.bind _ _ _ _ [mark ","] _ _ _ _ (reads_punctuator?_some "," _) fun found' known => ?_
      obtain ⟨token, rfl, -⟩ := known
      refine (ih all (found :: read) (by omega)).mono fun found' whole => ?_
      rw [whole, added found same, List.append_assoc]
      rfl

end Operand

namespace Parser

variable {front back front' back' : Nat} {node : Node} {words : List Token}

theorem holds_array {items : List Operand} (all : ∀ item ∈ items, item.Held) (comma : Bool) (span : Span)
    (front back : Nat) :
    Holds front back (.array span (items.map Operand.node))
      (mark "[" :: (Operand.listed comma items ++ [mark "]"])) := by
  intro budget least rest room _ _
  simp only [List.length_cons, List.length_append] at room
  obtain ⟨budget, rfl⟩ : ∃ inner, budget = inner + 2 := ⟨budget - 2, by omega⟩
  refine continues_leading rfl fun token heads => ?_
  rw [leading]
  refine (Operand.reads_sequence (.inr rfl) comma all [] (by omega)).before fun found same => ?_
  refine reads_pure ?_
  rw [Node.bare, Node.bare, same]
  rfl

theorem Holds.call (callee : Holds front back node words) (fits : Precedence.suffix ≤ back)
    {items : List Operand} (all : ∀ item ∈ items, item.Held) (comma : Bool) (span : Span) (back' : Nat) :
    Holds (min front Precedence.suffix) back' (.call span node (items.map Operand.node))
      (words ++ mark "(" :: (Operand.listed comma items ++ [mark ")"])) := by
  refine callee.suffix rfl fits (fun left token later rest same enough => ?_) back'
  simp only [List.length_append, List.length_singleton] at enough
  obtain ⟨later, rfl⟩ : ∃ inner, later = inner + 1 := ⟨later - 1, by omega⟩
  rw [join]
  refine (Operand.reads_sequence (.inl rfl) comma all [] (by omega)).before fun found others => ?_
  refine reads_pure ?_
  rw [Node.bare, Node.bare, same, others]
  rfl

theorem reads_open {item : Operand} (held : item.Held) (words rest : List Token) :
    Reads (atPunctuator "]") [] (item.words ++ words ++ rest) fun found => found = false :=
  (reads_atPunctuator "]" _).mono fun found closed => by
    rw [closed, List.append_assoc]
    exact held.headIs rfl _

theorem Holds.element (target : Holds front back node words) (fits : Precedence.suffix ≤ back)
    {index : Operand} (held : index.Held) (span : Span) (back' : Nat) :
    Holds (min front Precedence.suffix) back' (.element span node index.node)
      (words ++ mark "[" :: (index.words ++ [mark "]"])) := by
  refine target.suffix rfl fits (fun left token later rest same enough => ?_) back'
  simp only [List.length_append, List.length_singleton] at enough
  obtain ⟨later, rfl⟩ : ∃ inner, later = inner + 1 := ⟨later - 1, by omega⟩
  rw [join]
  refine Reads.after (reads_open held _ _) fun found open_ => ?_
  obtain rfl : found = false := open_
  simp only [Bool.false_eq_true, if_false]
  refine Reads.bind (held.reads (by omega) (by decide) rest) fun index' there => ?_
  refine Reads.after (reads_punctuator?_none rfl) fun found spent => ?_
  obtain rfl : found = none := spent
  refine (reads_punctuator "]" rest).before fun close _ => ?_
  exact reads_pure (by rw [Node.bare, Node.bare, same, there])

theorem Holds.slice (target : Holds front back node words) (fits : Precedence.suffix ≤ back)
    {start stop : Operand} (first : start.Held) (last : stop.Held) (span : Span) (back' : Nat) :
    Holds (min front Precedence.suffix) back' (.slice span node start.node stop.node)
      (words ++ mark "[" :: (start.words ++ mark ":" :: (stop.words ++ [mark "]"]))) := by
  refine target.suffix rfl fits (fun left token later rest same enough => ?_) back'
  simp only [List.length_append, List.length_cons, List.length_nil] at enough
  obtain ⟨later, rfl⟩ : ∃ inner, later = inner + 1 := ⟨later - 1, by omega⟩
  rw [join]
  refine Reads.after (reads_open first _ _) fun found open_ => ?_
  obtain rfl : found = false := open_
  simp only [Bool.false_eq_true, if_false]
  refine Reads.bind (first.reads (by omega) (by decide) _) fun start' begins => ?_
  refine @Reads.bind _ _ _ _ [mark ":"] _ _ _ _ (reads_punctuator?_some ":" _) fun found known => ?_
  obtain ⟨colon, rfl, -⟩ := known
  refine Reads.bind (last.reads (by omega) (by decide) rest) fun stop' ends => ?_
  refine (reads_punctuator "]" rest).before fun close _ => ?_
  exact reads_pure (by rw [Node.bare, Node.bare, same, begins, ends])

end Parser

end TabScript
