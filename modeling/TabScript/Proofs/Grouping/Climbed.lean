import TabScript.Proofs.Grouping.Held
import TabScript.Proofs.Grouping.Powers
import TabScript.Proofs.Spelling.Takes

/-! Operands with operators between them are read as the tree that their powers tell of.

Behind an operand, reading goes on over operators that bind more strongly than a bound. No operator is read that
is stronger than the root of what was read before, so that can become its left operand; and its right operand is
read with its own power as the bound. -/

set_option autoImplicit false

namespace TabScript

namespace Token

theorem links_append (first second : List (Token × Token)) :
    links (first ++ second) = links first ++ links second := by
  induction first with
  | nil => rfl
  | cons pair first ih =>
    obtain ⟨joint, operand⟩ := pair
    rw [List.cons_append, links, links, ih]
    rfl

theorem length_links (others : List (Token × Token)) : (links others).length = 2 * others.length := by
  induction others with
  | nil => rfl
  | cons pair others ih =>
    obtain ⟨joint, operand⟩ := pair
    rw [links, List.length_cons, List.length_cons, ih, List.length_cons]
    omega

end Token

theorem Grammar.precedence_of_rule {grammar : Grammar} {symbol : String} {rule : TrailingRule}
    (known : grammar.trailing? symbol = some rule) : grammar.precedence symbol = rule.precedence := by
  rw [precedence, known]
  rfl

structure Node.Climbed (grammar : Grammar) (least : Nat) (node : Node) (tokens : List Token) : Prop where
  inOrder : node.InOrder tokens
  grouped : node.Grouped grammar
  above : ∀ power ∈ node.power? grammar, least < power

theorem Node.climbed_atom {grammar : Grammar} {token : Token} (value : token.IsAtom) (least : Nat) :
    Climbed grammar least (Parser.atom token) [token] :=
  ⟨.atom value, grouped_atom token, by rw [power?_atom]; exact fun _ found => nomatch found⟩

theorem Node.Climbed.joined {grammar : Grammar} {left right : Node} {joint : Token} {operator : Operator}
    {power least : Nat} {read read' : List Token} (known : Operator.binary? joint.symbol = some operator)
    (strength : grammar.precedence joint.symbol = power) (binds : least < power)
    (first : left.Climbed grammar least read) (second : right.Climbed grammar power read')
    (strong : ∀ other ∈ left.power? grammar, power ≤ other) :
    Node.Climbed grammar least (.binary (left.span.union right.span) operator joint.span left right)
      (read ++ joint :: read') := by
  rw [← Operator.symbol_of_binary? known] at strength
  refine ⟨.binary known first.inOrder second.inOrder, ?_, ?_⟩
  · rw [Node.Grouped, strength]
    exact ⟨strong, second.above, first.grouped, second.grouped⟩
  · rintro _ ⟨⟩
    rwa [strength]

namespace Parser

open Token (links)

variable {grammar : Grammar} {first : Token} {others : List (Token × Token)} {budget least count : Nat}
  {left : Node} {read rest : List Token} {cursor : Cursor} {stop : Token}

/-- Behind some tokens the reader takes operators with their operands, up to the first operator that does not
bind strongly enough. What it gives is a tree of them behind what was read before. -/
def Gathers (grammar : Grammar) (least : Nat) (result : Except Fault (Node × Cursor)) (cursor : Cursor)
    (front read : List Token) (others : List (Token × Token)) : Prop :=
  ∃ taken more node after, others = taken ++ more ∧ result = .ok (node, after) ∧
    cursor.Passes (front ++ links taken) after ∧ node.Climbed grammar least (read ++ links taken) ∧
    ∀ pair ∈ more.head?, grammar.precedence pair.1.symbol ≤ least

/-- Whatever was read before, if only no operator is stronger that comes next. -/
def GathersBehind (grammar : Grammar) (count : Nat) : Prop :=
  ∀ ⦃others : List (Token × Token)⦄ ⦃budget least : Nat⦄ ⦃left : Node⦄ ⦃read rest : List Token⦄
    ⦃cursor : Cursor⦄ ⦃stop : Token⦄, others.length < count → 3 * others.length + 1 ≤ budget →
    (∀ pair ∈ others, grammar.IsJoint pair.1 ∧ pair.2.IsAtom) →
    cursor.upcoming = links others ++ stop :: rest → stop.symbol = "" → left.Climbed grammar least read →
    (∀ pair ∈ others.head?, ∀ power ∈ left.power? grammar, grammar.precedence pair.1.symbol ≤ power) →
    Gathers grammar least (trailing grammar budget least left cursor) cursor [] read others

theorem peek_of_upcoming {token : Token} (ahead : cursor.upcoming = token :: rest) : cursor.peek = token := by
  rw [Cursor.peek, ahead]
  rfl

theorem passes_advance {token : Token} (ahead : cursor.upcoming = token :: rest) :
    cursor.Passes [token] cursor.advance ∧ cursor.advance.upcoming = rest := by
  obtain ⟨previous, upcoming, ending⟩ := cursor
  obtain rfl := ahead
  exact ⟨⟨rfl, rfl, rfl⟩, rfl⟩

theorem join_binary {right : Node} {joint : Token} {operator : Operator} {power : Nat} {after : Cursor}
    (known : Operator.binary? joint.symbol = some operator)
    (reads : expression grammar budget power cursor = .ok (right, after)) :
    join grammar (budget + 1) ⟨.binary, power⟩ left joint cursor =
      .ok (.binary (left.span.union right.span) operator joint.span left right, after) := by
  rw [join]
  simp only [known]
  change (expression grammar budget power cursor >>= fun found => Except.ok (_, found.2)) = _
  rw [reads]
  rfl

theorem peek_bind {α : Type} (next : Token → Parser α) (cursor : Cursor) :
    (peek >>= next) cursor = next cursor.peek cursor := rfl

theorem endOfLine_apply (ends : cursor.peek.kind = .newline) : endOfLine cursor = .ok ((), cursor.advance) := by
  rw [endOfLine, peek_bind]
  simp only [ends]
  rfl

theorem statement_apply {node : Node} {after : Cursor} (kind : cursor.peek.kind ≠ .keyword)
    (reads : expression grammar budget Precedence.lowest cursor = .ok (node, after))
    (ends : after.peek.kind = .newline) : statement grammar (budget + 1) cursor = .ok (node, after.advance) := by
  rw [statement, peek_bind]
  simp only [if_neg kind]
  change (expression grammar budget Precedence.lowest cursor >>= fun found =>
    endOfLine found.2 >>= fun ended => Except.ok (found.1, ended.2)) = _
  rw [reads]
  change (endOfLine after >>= fun ended => Except.ok (node, ended.2)) = _
  rw [endOfLine_apply ends]
  rfl

theorem statements_apply (grammar : Grammar) (budget : Nat) (ends : TokenKind → Bool) (read : List Node)
    (cursor : Cursor) :
    statements grammar (budget + 1) ends read cursor =
      if ends cursor.peek.kind then .ok (read.reverse, cursor)
      else statement grammar budget cursor >>= fun found =>
        statements grammar budget ends (found.1 :: read) found.2.skipNewlines := by
  rw [statements]
  change ((do
    if ends cursor.peek.kind then return read.reverse
    let node ← statement grammar budget
    skipNewlines
    statements grammar budget ends (node :: read) : Parser (List Node)) cursor) = _
  split <;> rfl

theorem skipNewlines_of_ne (other : cursor.peek.kind ≠ .newline) : cursor.skipNewlines = cursor := by
  obtain ⟨previous, upcoming, ending⟩ := cursor
  cases upcoming with
  | nil => rfl
  | cons token rest =>
    have kind : token.kind ≠ .newline := other
    simp [Cursor.skipNewlines, kind]

theorem program_apply {node : Node} {after : Cursor} (other : cursor.peek.kind ≠ .newline)
    (more : cursor.peek.kind ≠ .endOfProgram)
    (reads : statement grammar (budgetFor cursor.upcoming.length - 1) cursor = .ok (node, after))
    (spent : after.upcoming = []) (ends : after.ending.kind = .endOfProgram) :
    program grammar cursor = .ok (.of node.span [node], after) := by
  obtain ⟨budget, room⟩ : ∃ budget, budgetFor cursor.upcoming.length = budget + 2 :=
    ⟨budgetFor cursor.upcoming.length - 2, by rw [budgetFor]; omega⟩
  have last : after.peek.kind = .endOfProgram := by
    rw [Cursor.peek, spent]
    exact ends
  change (statements grammar (budgetFor cursor.upcoming.length) (fun kind => kind = .endOfProgram) []
    cursor.skipNewlines >>= fun found => (Except.ok
      (Block.of (spanOf found.1 (.point found.2.peek.span.start)) found.1, found.2) :
        Except Fault (Block × Cursor))) = _
  rw [room] at reads
  change statement grammar (budget + 1) cursor = _ at reads
  have ended : statements grammar (budget + 1) (fun kind => kind = .endOfProgram) [node] after.skipNewlines =
      .ok ([node], after) := by
    rw [skipNewlines_of_ne (by simp [last]), statements_apply, if_pos (by simpa using last)]
    rfl
  have once : statements grammar (budget + 2) (fun kind => kind = .endOfProgram) [] cursor =
      .ok ([node], after) := by
    rw [statements_apply, if_neg (by simpa using more), reads]
    exact ended
  rw [room, skipNewlines_of_ne other, once]
  rfl

variable (combines : grammar.Combines)
include combines

theorem gathers_expression (behind : GathersBehind grammar count) (short : others.length < count)
    (room : 3 * others.length + 2 ≤ budget) (chained : grammar.Chained first others)
    (ahead : cursor.upcoming = first :: (links others ++ stop :: rest)) (layout : stop.symbol = "")
    (least : Nat) :
    Gathers grammar least (expression grammar budget least cursor) cursor [first] [first] others := by
  obtain ⟨budget, rfl⟩ : ∃ inner, budget = inner + 2 := ⟨budget - 2, by omega⟩
  obtain ⟨passes, left_⟩ := passes_advance ahead
  have rule : grammar.leading? cursor.peek.symbol = some .atom := by
    rw [peek_of_upcoming ahead, chained.first.symbol_eq]
    exact combines.atoms
  have reached : expression grammar (budget + 2) least cursor =
      trailing grammar (budget + 1) least (atom first) cursor.advance := by
    rw [expression_apply]
    simp only [rule]
    rw [peek_of_upcoming ahead]
    rfl
  have gathered : Gathers grammar least (trailing grammar (budget + 1) least (atom first) cursor.advance)
      cursor.advance [] [first] others :=
    behind short (by omega) chained.others left_ layout (Node.climbed_atom chained.first least)
      (by rw [Node.power?_atom]; exact fun _ _ _ found => nomatch found)
  obtain ⟨taken, more, node, after, split, done, further, climbed, weak⟩ := gathered
  exact ⟨taken, more, node, after, split, reached.trans done, passes.trans further, climbed, weak⟩

theorem gathersBehind (count : Nat) : GathersBehind grammar count := by
  -- on the number of operators: the right operand takes some of them, and the rest is read behind the new node
  induction count with
  | zero => exact fun _ _ _ _ _ _ _ _ short => absurd short (Nat.not_lt_zero _)
  | succ count ih =>
  intro others budget least left read rest cursor stop short room chained ahead layout climbed strong
  obtain ⟨budget, rfl⟩ : ∃ inner, budget = inner + 1 := ⟨budget - 1, by omega⟩
  rw [trailing_apply]
  cases others with
  | nil =>
    have none_ : grammar.trailing? cursor.peek.symbol = none := by
      rw [peek_of_upcoming ahead, layout]
      exact combines.layout
    simp only [none_]
    refine ⟨[], [], left, cursor, rfl, rfl, cursor.passes_refl, ?_, by simp⟩
    rwa [links, List.append_nil]
  | cons pair others =>
    obtain ⟨joint, operand⟩ := pair
    rw [List.length_cons] at short room
    obtain ⟨⟨⟨operator, power, known, rule, positive⟩, value⟩, all⟩ := List.forall_mem_cons.1 chained
    have strength := Grammar.precedence_of_rule rule
    have heads : cursor.peek = joint := peek_of_upcoming ahead
    simp only [heads, rule]
    by_cases binds : least < power
    · simp only [binds, if_true]
      obtain ⟨passes, left_⟩ := passes_advance ahead
      obtain ⟨budget, rfl⟩ : ∃ inner, budget = inner + 1 := ⟨budget - 1, by omega⟩
      have one : Gathers grammar power (expression grammar budget power cursor.advance) cursor.advance [operand]
          [operand] others :=
        gathers_expression combines ih (by omega) (by omega) ⟨value, all⟩ left_ layout power
      obtain ⟨taken, more, right, between, split, done, further, second, weak⟩ := one
      subst split
      have onward : between.upcoming = links more ++ stop :: rest := by
        have same := further.upcoming
        rw [left_, List.singleton_append] at same
        have same' : links (taken ++ more) ++ stop :: rest = links taken ++ between.upcoming := (List.cons.inj same).2
        rw [Token.links_append, List.append_assoc] at same'
        exact (List.append_cancel_left same').symm
      rw [join_binary known done]
      rw [List.length_append] at room short
      have whole := climbed.joined known strength binds second fun other found =>
        strength ▸ strong _ rfl other found
      -- what was not taken for the right operand is not stronger than its operator
      have behind : Gathers grammar least (trailing grammar (budget + 1) least _ between) between [] _ more :=
        ih (by omega) (by omega) (fun pair inside => all pair (List.mem_append_right _ inside)) onward layout whole
          fun pair head other found => by
            obtain rfl : grammar.precedence operator.symbol = other := Option.some.inj found
            rw [Operator.symbol_of_binary? known]
            exact strength ▸ weak pair head
      obtain ⟨taken', more', node, after, split, done', further', climbed', weak'⟩ := behind
      refine ⟨(joint, operand) :: (taken ++ taken'), more', node, after, ?_, done', ?_, ?_, weak'⟩
      · rw [split, List.cons_append, List.append_assoc]
      · have whole := passes.trans (further.trans further')
        rwa [List.nil_append, List.append_assoc, ← Token.links_append] at whole
      · rw [List.append_assoc, List.cons_append, List.append_assoc, ← Token.links_append] at climbed'
        exact climbed'
    · simp only [binds, if_false]
      refine ⟨[], _, left, cursor, rfl, rfl, cursor.passes_refl, ?_, fun pair head => ?_⟩
      · rwa [links, List.append_nil]
      · cases head
        rw [strength]
        exact Nat.le_of_not_lt binds

theorem expression_climbs (room : 3 * others.length + 2 ≤ budget) (chained : grammar.Chained first others)
    (ahead : cursor.upcoming = first :: (links others ++ stop :: rest)) (layout : stop.symbol = "") :
    ∃ node after, expression grammar budget Precedence.lowest cursor = .ok (node, after) ∧
      cursor.Passes (first :: links others) after ∧ node.InOrder (first :: links others) ∧
      node.Grouped grammar := by
  obtain ⟨taken, more, node, after, split, done, passes, climbed, weak⟩ :=
    gathers_expression combines (gathersBehind combines (others.length + 1)) (Nat.lt_succ_self _) room chained
      ahead layout Precedence.lowest
  have all : more = [] := by
    cases more with
    | nil => rfl
    | cons pair more =>
      obtain ⟨⟨operator, power, -, rule, positive⟩, -⟩ := chained.others pair (by rw [split]; simp)
      have low := weak pair rfl
      rw [Grammar.precedence_of_rule rule] at low
      exact absurd (Nat.lt_of_lt_of_le positive low) (Nat.lt_irrefl _)
  subst all
  rw [List.append_nil] at split
  subst split
  exact ⟨node, after, done, passes, climbed.inOrder, climbed.grouped⟩

theorem statement_climbs (room : 3 * others.length + 3 ≤ budget) (chained : grammar.Chained first others)
    (ahead : cursor.upcoming = first :: (links others ++ stop :: rest)) (ends : stop.kind = .newline) :
    ∃ node after, statement grammar budget cursor = .ok (node, after) ∧
      cursor.Passes (first :: (links others ++ [stop])) after ∧ node.InOrder (first :: links others) ∧
      node.Grouped grammar := by
  obtain ⟨budget, rfl⟩ : ∃ inner, budget = inner + 1 := ⟨budget - 1, by omega⟩
  have layout : stop.symbol = "" := by rw [Token.symbol, ends]
  have enough : 3 * others.length + 2 ≤ budget := by omega
  obtain ⟨node, after, done, passes, inOrder, grouped⟩ := expression_climbs combines enough chained ahead layout
  have kind : cursor.peek.kind ≠ .keyword := by
    rw [peek_of_upcoming ahead]
    rcases chained.first with kind | kind | kind | kind <;> simp [kind]
  have behind : after.upcoming = stop :: rest := by
    have same := passes.upcoming
    rw [ahead, List.cons_append] at same
    exact (List.append_cancel_left (List.cons.inj same).2).symm
  obtain ⟨further, -⟩ := passes_advance behind
  refine ⟨node, after.advance, statement_apply kind done ?_, ?_, inOrder, grouped⟩
  · rwa [peek_of_upcoming behind]
  · have whole := passes.trans further
    rwa [List.cons_append] at whole

end Parser

namespace Token

variable {grammar : Grammar} {first token : Token} {others : List (Token × Token)}

theorem kind_of_symbol (something : token.symbol ≠ "") :
    token.kind ≠ .endOfProgram ∧ token.kind ≠ .newline := by
  unfold symbol at something
  refine ⟨fun kind => ?_, fun kind => ?_⟩ <;> rw [kind] at something <;> exact something rfl

theorem IsAtom.something (value : token.IsAtom) : token.symbol ≠ "" := by
  rw [value.symbol_eq]
  decide

end Token

theorem Grammar.IsJoint.something {grammar : Grammar} {token : Token} (joint : grammar.IsJoint token) :
    token.symbol ≠ "" := by
  obtain ⟨operator, power, known, -⟩ := joint
  intro empty
  rw [empty] at known
  cases known

theorem Grammar.Chained.something {grammar : Grammar} {first : Token} {others : List (Token × Token)}
    (chained : grammar.Chained first others) : ∀ token ∈ first :: Token.links others, token.symbol ≠ "" := by
  have all : ∀ token ∈ Token.links others, token.symbol ≠ "" := by
    have known := chained.others
    clear chained
    induction others with
    | nil => exact fun _ inside => nomatch inside
    | cons pair others ih =>
      obtain ⟨joint, operand⟩ := pair
      obtain ⟨⟨between, value⟩, known⟩ := List.forall_mem_cons.1 known
      rintro token (_ | ⟨_, _ | ⟨_, inside⟩⟩)
      · exact between.something
      · exact value.something
      · exact ih known token inside
  exact List.forall_mem_cons.2 ⟨chained.first.something, all⟩

/-- Operands with operators between them are read as the one tree of them in which no operator to the left is
weaker than its parent, and every operator to the right is stronger, whatever the powers are. -/
theorem parseTokens_climbs {grammar : Grammar} (combines : grammar.Combines) {first : Token}
    {others : List (Token × Token)} (chained : grammar.Chained first others) {newline ending : Token}
    (ends : newline.kind = .newline) (last : ending.kind = .endOfProgram) :
    ∃ node : Node, node.InOrder (first :: Token.links others) ∧ node.Grouped grammar ∧
      (∀ other : Node, other.InOrder (first :: Token.links others) → other.Grouped grammar → other = node) ∧
      parseTokens grammar (first :: (Token.links others ++ [newline, ending])) =
        .ok (.of node.span [node]) ∧
      ∀ (budget : Nat) (rest : List Token) (cursor : Cursor), 3 * others.length + 3 ≤ budget →
        cursor.upcoming = first :: (Token.links others ++ newline :: rest) →
        ∃ after, Parser.statement grammar budget cursor = .ok (node, after) ∧
          cursor.Passes (first :: (Token.links others ++ [newline])) after := by
  have content : ∀ token ∈ first :: (Token.links others ++ [newline]), token.kind ≠ .endOfProgram := by
    intro token inside
    rw [← List.cons_append] at inside
    rcases List.mem_append.1 inside with inside | inside
    · exact (Token.kind_of_symbol (chained.something token inside)).1
    · obtain rfl := List.mem_singleton.1 inside
      simp [ends]
  have whole : (first :: (Token.links others ++ [newline])).length = 2 * others.length + 2 := by
    rw [List.length_cons, List.length_append, Token.length_links, List.length_singleton]
  let start : Cursor := ⟨none, first :: (Token.links others ++ [newline]), ending⟩
  have enough : 3 * others.length + 3 ≤ Parser.budgetFor (2 * others.length + 2) - 1 := by
    rw [Parser.budgetFor]
    omega
  have ahead : start.upcoming = first :: (Token.links others ++ newline :: []) := rfl
  obtain ⟨node, after, reads, passes, inOrder, grouped⟩ :=
    Parser.statement_climbs combines enough chained ahead ends
  -- there is one tree of this kind over the tokens, so every reader with enough room gives it
  have unique : ∀ other : Node, other.InOrder (first :: Token.links others) → other.Grouped grammar →
      other = node := fun other holds groups => holds.unique groups inOrder grouped
  refine ⟨node, inOrder, grouped, unique, ?_, fun budget rest cursor room ahead => ?_⟩
  · have spent : after.upcoming = [] :=
      (List.append_cancel_left ((List.append_nil _).trans passes.upcoming)).symm
    have kind := Token.kind_of_symbol chained.first.something
    rw [← whole] at reads
    have read : Parser.program grammar start = _ :=
      Parser.program_apply kind.2 kind.1 reads spent (by rw [passes.ending]; exact last)
    have tokens : first :: (Token.links others ++ [newline, ending]) =
        first :: (Token.links others ++ [newline]) ++ [ending] := by simp
    rw [parseTokens, tokens, Cursor.ofTokens_ended last content, read]
    rfl
  · obtain ⟨other, behind, read, passed, holds, groups⟩ :=
      Parser.statement_climbs combines room chained ahead ends
    obtain rfl := unique other holds groups
    exact ⟨behind, read, passed⟩

/-- A grammar of its own: subtraction and division are as strong as each other, and a sum is stronger than any
other operator. -/
def inverted : Grammar where
  leading := [(Token.atom, .atom)]
  trailing := [("-", ⟨.binary, 1⟩), ("/", ⟨.binary, 1⟩), ("+", ⟨.binary, 255⟩)]
  statements := []

/-- A difference over a sum, without parentheses. -/
theorem parseTokens_climbs_inverted :
    inverted.Combines ∧ inverted.Chained (Token.name "a")
      [(Token.mark "-", Token.name "b"), (Token.mark "/", Token.name "c"), (Token.mark "+", Token.name "d")] ∧
    parseTokens inverted [Token.name "a", Token.mark "-", Token.name "b", Token.mark "/", Token.name "c",
        Token.mark "+", Token.name "d", Token.layout .newline, Token.layout .endOfProgram] =
      .ok (.of default [.binary default .divide default
        (.binary default .subtract default (.identifier default "a") (.identifier default "b"))
        (.binary default .add default (.identifier default "c") (.identifier default "d"))]) := by
  have combines : inverted.Combines := ⟨rfl, rfl⟩
  have chained : inverted.Chained (Token.name "a")
      [(Token.mark "-", Token.name "b"), (Token.mark "/", Token.name "c"), (Token.mark "+", Token.name "d")] := by
    refine ⟨.inl rfl, List.forall_mem_cons.2 ⟨⟨?_, .inl rfl⟩, List.forall_mem_cons.2 ⟨⟨?_, .inl rfl⟩,
      List.forall_mem_singleton.2 ⟨?_, .inl rfl⟩⟩⟩⟩
    · exact ⟨.subtract, 1, rfl, rfl, by decide⟩
    · exact ⟨.divide, 1, rfl, rfl, by decide⟩
    · exact ⟨.add, 255, rfl, rfl, by decide⟩
  obtain ⟨node, -, -, unique, parsed, -⟩ :=
    @parseTokens_climbs _ combines _ _ chained (Token.layout .newline) (Token.layout .endOfProgram) rfl rfl
  have leaf (word : String) : Node.InOrder (.identifier default word) [Token.name word] :=
    @Node.InOrder.atom (Token.name word) (.inl rfl)
  have difference := @Node.InOrder.binary _ _ _ _ (Token.mark "-") .subtract rfl (leaf "a") (leaf "b")
  have sum := @Node.InOrder.binary _ _ _ _ (Token.mark "+") .add rfl (leaf "c") (leaf "d")
  have quotient := @Node.InOrder.binary _ _ _ _ (Token.mark "/") .divide rfl difference sum
  have powers : inverted.precedence "-" = 1 ∧ inverted.precedence "/" = 1 ∧ inverted.precedence "+" = 255 :=
    ⟨rfl, rfl, rfl⟩
  obtain rfl := unique _ quotient (by simp [Node.Grouped, Node.power?, Operator.symbol, powers])
  exact ⟨combines, chained, parsed⟩

end TabScript
