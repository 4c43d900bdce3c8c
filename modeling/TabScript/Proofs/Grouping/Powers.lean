import TabScript.Grammar.Statement
import TabScript.Proofs.Spelling.Essential

/-! Trees of binary operators.

The tree that is read from operands with operators between them is held together by the powers of the
operators: to the left of an operator stands nothing that is weaker, and to the right only what is stronger.
There is one such tree, since its root is the last operator of the smallest power. -/

set_option autoImplicit false

namespace TabScript

/-- The grammar has the rule for names and constants, and none for the end of a line. -/
structure Grammar.Combines (grammar : Grammar) : Prop where
  atoms : grammar.leading? Token.atom = some .atom
  layout : grammar.trailing? "" = none

def Grammar.IsJoint (grammar : Grammar) (token : Token) : Prop :=
  ∃ operator power, Operator.binary? token.symbol = some operator ∧
    grammar.trailing? token.symbol = some ⟨.binary, power⟩ ∧ 0 < power

def Token.links : List (Token × Token) → List Token
  | [] => []
  | (joint, operand) :: others => joint :: operand :: links others

/-- Operands with operators between them. -/
structure Grammar.Chained (grammar : Grammar) (first : Token) (others : List (Token × Token)) : Prop where
  first : first.IsAtom
  others : ∀ pair ∈ others, grammar.IsJoint pair.1 ∧ pair.2.IsAtom

namespace Node

inductive InOrder : Node → List Token → Prop where
  | atom {token : Token} (value : token.IsAtom) : InOrder (Parser.atom token) [token]
  | binary {left right : Node} {before after : List Token} {token : Token} {operator : Operator}
    (known : Operator.binary? token.symbol = some operator) (first : InOrder left before)
    (second : InOrder right after) :
    InOrder (.binary (left.span.union right.span) operator token.span left right) (before ++ token :: after)

def power? (grammar : Grammar) : Node → Option Nat
  | binary _ operator _ _ _ => some (grammar.precedence operator.symbol)
  | _ => none

/-- Operators of the same power are grouped to the left, and a stronger one before a weaker. -/
def Grouped (grammar : Grammar) : Node → Prop
  | binary _ operator _ left right =>
    (∀ power ∈ left.power? grammar, grammar.precedence operator.symbol ≤ power) ∧
      (∀ power ∈ right.power? grammar, grammar.precedence operator.symbol < power) ∧
      left.Grouped grammar ∧ right.Grouped grammar
  | _ => True

end Node

theorem Operator.symbol_of_binary? {symbol : String} {operator : Operator}
    (known : binary? symbol = some operator) : operator.symbol = symbol := by
  unfold binary? at known
  split at known <;> cases known <;> rfl

theorem Token.IsAtom.symbol_eq {token : Token} (value : token.IsAtom) : token.symbol = atom := by
  unfold symbol
  rcases value with kind | kind | kind | kind <;> rw [kind]

namespace Node

variable {grammar : Grammar} {node other left right : Node} {tokens : List Token} {token : Token}

theorem power?_atom (token : Token) : (Parser.atom token).power? grammar = none := by
  unfold Parser.atom
  split <;> rfl

theorem grouped_atom (token : Token) : (Parser.atom token).Grouped grammar := by
  unfold Parser.atom
  split <;> exact trivial

theorem InOrder.ne_nil (holds : node.InOrder tokens) : tokens ≠ [] := by
  cases holds <;> simp

theorem InOrder.power_le (holds : node.InOrder tokens) (grouped : node.Grouped grammar) {least : Nat}
    (root : ∀ power ∈ node.power? grammar, least ≤ power) {joint : Token} (inside : joint ∈ tokens)
    {operator : Operator} (known : Operator.binary? joint.symbol = some operator) :
    least ≤ grammar.precedence joint.symbol := by
  induction holds generalizing least with
  | atom value =>
    obtain rfl := List.mem_singleton.1 inside
    rw [value.symbol_eq] at known
    cases known
  | @binary left right before after token operator' known' first second ih ih' =>
    obtain ⟨weaker, stronger, grouped, grouped'⟩ := grouped
    have here := root _ rfl
    rcases List.mem_append.1 inside with inside | inside
    · exact ih grouped (fun power found => Nat.le_trans here (weaker power found)) inside
    rcases List.mem_cons.1 inside with rfl | inside
    · rwa [Operator.symbol_of_binary? known'] at here
    · exact ih' grouped' (fun power found => Nat.le_of_lt (Nat.lt_of_le_of_lt here (stronger power found))) inside

theorem InOrder.inv (holds : node.InOrder tokens) :
    (∃ token : Token, token.IsAtom ∧ tokens = [token] ∧ node = Parser.atom token) ∨
      ∃ (left right : Node) (before after : List Token) (token : Token) (operator : Operator),
        Operator.binary? token.symbol = some operator ∧ left.InOrder before ∧ right.InOrder after ∧
          tokens = before ++ token :: after ∧
          node = .binary (left.span.union right.span) operator token.span left right := by
  cases holds with
  | atom value => exact .inl ⟨_, value, rfl, rfl⟩
  | binary known first second => exact .inr ⟨_, _, _, _, _, _, known, first, second, rfl, rfl⟩

/-- A row of tokens that is cut twice is cut at the same place, or one cut is in front of the other. -/
theorem append_cons_cases {before after before' after' : List Token} {token token' : Token}
    (same : before ++ token :: after = before' ++ token' :: after') :
    (before = before' ∧ token = token' ∧ after = after') ∨
      (∃ between, before' = before ++ token :: between ∧ after = between ++ token' :: after') ∨
      ∃ between, before = before' ++ token' :: between ∧ after' = between ++ token :: after := by
  rcases List.append_eq_append_iff.1 same with ⟨more, rfl, rest⟩ | ⟨more, rfl, rest⟩
  · cases more with
    | nil =>
      cases rest
      exact .inl ⟨(List.append_nil _).symm, rfl, rfl⟩
    | cons first more =>
      cases rest
      exact .inr (.inl ⟨more, rfl, rfl⟩)
  · cases more with
    | nil =>
      cases rest
      exact .inl ⟨List.append_nil _, rfl, rfl⟩
    | cons first more =>
      cases rest
      exact .inr (.inr ⟨more, rfl, rfl⟩)

theorem InOrder.not_apart {operator operator' : Operator} {before after : List Token} {token' : Token}
    (known : Operator.binary? token.symbol = some operator)
    (known' : Operator.binary? token'.symbol = some operator')
    (first : left.InOrder before) (grouped : left.Grouped grammar)
    (weaker : ∀ power ∈ left.power? grammar, grammar.precedence operator'.symbol ≤ power)
    (second : right.InOrder after) (grouped' : right.Grouped grammar)
    (stronger : ∀ power ∈ right.power? grammar, grammar.precedence operator.symbol < power)
    (inside : token ∈ before) (inside' : token' ∈ after) : False := by
  have le := first.power_le grouped weaker inside known
  have lt := second.power_le grouped' (fun power found => Nat.succ_le_of_lt (stronger power found)) inside' known'
  rw [Operator.symbol_of_binary? known'] at le
  rw [Operator.symbol_of_binary? known] at lt
  omega

/-- The last operator of the smallest power is at the root, so there is one tree for the tokens. -/
theorem InOrder.unique (holds : node.InOrder tokens) (grouped : node.Grouped grammar)
    (holds' : other.InOrder tokens) (grouped' : other.Grouped grammar) : node = other := by
  induction holds generalizing other with
  | @atom token value =>
    rcases holds'.inv with
      ⟨token', -, same, rfl⟩ | ⟨left, right, before, after, token', operator, -, first, -, same, -⟩
    · cases same
      rfl
    · have some_ := first.ne_nil
      cases before with
      | nil => exact absurd rfl some_
      | cons head before => simp at same
  | @binary left right before after token operator known first second ih ih' =>
    obtain ⟨weaker, stronger, groupedLeft, groupedRight⟩ := grouped
    rcases holds'.inv with ⟨token', -, same, rfl⟩ |
      ⟨left', right', before', after', token', operator', known', first', second', same, rfl⟩
    · have some_ := first.ne_nil
      cases before with
      | nil => exact absurd rfl some_
      | cons head before => simp at same
    obtain ⟨weaker', stronger', groupedLeft', groupedRight'⟩ := grouped'
    -- the two roots are the same token, or one stands in front of the other; then one of the trees is not grouped
    rcases append_cons_cases same with ⟨rfl, rfl, rfl⟩ | ⟨between, rfl, rfl⟩ | ⟨between, rfl, rfl⟩
    · obtain rfl := ih groupedLeft first' groupedLeft'
      obtain rfl := ih' groupedRight second' groupedRight'
      cases known.symm.trans known'
      rfl
    · exact (InOrder.not_apart known known' first' groupedLeft' weaker' second groupedRight stronger
        (by simp) (by simp)).elim
    · exact (InOrder.not_apart known' known first groupedLeft weaker second' groupedRight' stronger'
        (by simp) (by simp)).elim

end Node

end TabScript
