import TabScript.Proofs.Grouping.Held
import TabScript.Proofs.Grouping.Powers

/-! The texts of expressions.

An expression is written down in many ways: with parentheses that are not needed, with a comma left over, with
either sign of negation. Each text stands for one tree. Of an operator that stands in front of a text or behind
it, its power decides how much of the text it takes. -/

set_option autoImplicit false

namespace TabScript

open Token (mark keyword)

inductive Suffix where
  | call (arguments : List Operand) (comma : Bool)
  | element (index : Operand)
  | slice (start stop : Operand)

namespace Suffix

def operands : Suffix → List Operand
  | call arguments _ => arguments
  | element index => [index]
  | slice start stop => [start, stop]

def words : Suffix → List Token
  | call arguments comma => mark "(" :: (Operand.listed comma arguments ++ [mark ")"])
  | element index => mark "[" :: (index.words ++ [mark "]"])
  | slice start stop => mark "[" :: (start.words ++ mark ":" :: (stop.words ++ [mark "]"]))

def attach (target : Node) : Suffix → Node
  | call arguments _ => .call default target (arguments.map Operand.node)
  | element index => .element default target index.node
  | slice start stop => .slice default target start.node stop.node

end Suffix

def Precedence.closed : Nat := Precedence.suffix + 1

/-- The words of an expression, and the tree that they stand for. An operator in front takes all of them if it
is weaker than the first number, and one behind takes all of them if it is not stronger than the second. Nothing
else is read as an expression, as `Token.means_iff` says. -/
inductive Phrase : Nat → Nat → List Token → Node → Prop where
  | atom {token : Token} (value : token.IsAtom) :
    Phrase Precedence.closed Precedence.closed [token.bare] (Parser.atom token.bare)
  | none : Phrase Precedence.closed Precedence.closed [keyword "None"] (.literal default none)
  | group {front back : Nat} {words : List Token} {node : Node} (inner : Phrase front back words node) :
    Phrase Precedence.closed Precedence.closed (mark "(" :: (words ++ [mark ")"])) node
  | array {items : List Operand} (comma : Bool)
    (all : ∀ item ∈ items, Phrase item.front item.back item.words item.node) :
    Phrase Precedence.closed Precedence.closed (mark "[" :: (Operand.listed comma items ++ [mark "]"]))
      (.array default (items.map Operand.node))
  | unary {front back : Nat} {words : List Token} {node : Node} {symbol : String} {operator : Operator}
    (known : Operator.unary? symbol = some operator) (operand : Phrase front back words node)
    (binds : Precedence.unary < front) :
    Phrase Precedence.closed (min Precedence.unary back) (mark symbol :: words)
      (.unary default operator default node)
  | binary {front back front' back' : Nat} {words words' : List Token} {left right : Node} {symbol : String}
    {operator : Operator} (known : Operator.binary? symbol = some operator)
    (first : Phrase front back words left) (fits : Grammar.standard.precedence symbol ≤ back)
    (second : Phrase front' back' words' right) (binds : Grammar.standard.precedence symbol < front') :
    Phrase (min front (Grammar.standard.precedence symbol)) (min (Grammar.standard.precedence symbol) back')
      (words ++ mark symbol :: words') (.binary default operator default left right)
  | suffix {front back : Nat} {words : List Token} {node : Node} (target : Phrase front back words node)
    (fits : Precedence.suffix ≤ back) (suffix : Suffix)
    (all : ∀ item ∈ suffix.operands, Phrase item.front item.back item.words item.node) :
    Phrase (min front Precedence.suffix) Precedence.closed (words ++ suffix.words) (suffix.attach node)

/-- A constant, a name, an array or an expression in parentheses. -/
def Primary (words : List Token) (node : Node) : Prop :=
  Phrase Precedence.closed Precedence.closed words node

def Operand.IsPhrase (item : Operand) : Prop := Phrase item.front item.back item.words item.node

/-- What stands between the brackets of the suffix are expressions. -/
def Suffix.Proper (suffix : Suffix) : Prop := ∀ item ∈ suffix.operands, item.IsPhrase

namespace Operator

variable {symbol : String} {operator : Operator}

theorem leading_of_unary? (known : unary? symbol = some operator) :
    Grammar.standard.leading? symbol = some (.unary Precedence.unary) := by
  unfold unary? at known
  split at known <;> first | rfl | cases known

theorem trailing_of_binary? (known : binary? symbol = some operator) :
    Grammar.standard.trailing? symbol = some ⟨.binary, Grammar.standard.precedence symbol⟩ := by
  unfold binary? at known
  split at known <;> first | rfl | cases known

theorem assignment_lt_precedence (known : binary? symbol = some operator) :
    Precedence.assignment < Grammar.standard.precedence symbol := by
  unfold binary? at known
  split at known <;> first | decide | cases known

theorem precedence_cases (known : binary? symbol = some operator) :
    (operator = .power ∧ Grammar.standard.precedence symbol = Precedence.suffix) ∨
      (operator ≠ .power ∧ Grammar.standard.precedence symbol < Precedence.suffix) := by
  unfold binary? at known
  split at known <;> cases known <;> decide

theorem precedence_le_suffix (known : binary? symbol = some operator) :
    Grammar.standard.precedence symbol ≤ Precedence.suffix := by
  rcases precedence_cases known with ⟨-, same⟩ | ⟨-, weaker⟩
  · exact Nat.le_of_eq same
  · exact Nat.le_of_lt weaker

end Operator

theorem Parser.bare_atom (token : Token) : (Parser.atom token).bare = Parser.atom token.bare := by
  obtain ⟨kind, value, span⟩ := token
  unfold Parser.atom
  cases kind <;> rcases value with _ | (_ | _ | _) <;> rfl

namespace Phrase

variable {front back : Nat} {words : List Token} {node : Node}

theorem above (phrase : Phrase front back words node) : Precedence.assignment < front := by
  induction phrase with
  | atom | none | group | array | unary => decide
  | binary known _ _ _ _ ih => exact Nat.lt_min.2 ⟨ih, Operator.assignment_lt_precedence known⟩
  | suffix _ _ _ _ ih => exact Nat.lt_min.2 ⟨ih, by decide⟩

theorem opens (phrase : Phrase front back words node) :
    ∃ first others, words = first :: others ∧ first.Opens := by
  induction phrase with
  | @atom token value =>
    refine ⟨_, _, rfl, ?_⟩
    rw [Token.Opens, Token.symbol_bare, value.symbol_eq]
    rfl
  | none => exact ⟨_, _, rfl, by decide⟩
  | group => exact ⟨_, _, rfl, by decide⟩
  | array => exact ⟨_, _, rfl, by decide⟩
  | unary known =>
    refine ⟨_, _, rfl, ?_⟩
    exact Option.isSome_iff_exists.2 ⟨_, Operator.leading_of_unary? known⟩
  | binary _ _ _ _ _ ih =>
    obtain ⟨first, others, begins, opens⟩ := ih
    exact ⟨first, _, by rw [begins, List.cons_append], opens⟩
  | suffix _ _ _ _ ih =>
    obtain ⟨first, others, begins, opens⟩ := ih
    exact ⟨first, _, by rw [begins, List.cons_append], opens⟩

theorem holds (phrase : Phrase front back words node) : Parser.Holds front back node words := by
  induction phrase with
  | @atom token value =>
    have symbol : token.bare.symbol = Token.atom := value.symbol_eq
    refine Parser.holds_atom symbol (fun other heads => ?_) _ _
    rw [Parser.bare_atom, Parser.bare_atom, heads]
    rfl
  | none => exact Parser.holds_none default _ _
  | group inner ih => exact ih.group inner.above _ _
  | @array items comma all ih =>
    have held : ∀ item ∈ items, item.Held :=
      fun item inside => ⟨ih item inside, (all item inside).above, (all item inside).opens⟩
    exact Parser.holds_array held comma default _ _
  | unary known _ binds ih => exact ih.unary (Operator.leading_of_unary? known) known binds _
  | binary known _ fits _ binds ih ih' =>
    exact ih.binary (Operator.trailing_of_binary? known) known fits ih' binds
  | suffix _ fits suffix all ih ih' =>
    have held : ∀ item ∈ suffix.operands, item.Held :=
      fun item inside => ⟨ih' item inside, (all item inside).above, (all item inside).opens⟩
    cases suffix with
    | call arguments comma => exact ih.call fits held comma default _
    | element index => exact ih.element fits (held index List.mem_cons_self) default _
    | slice start stop =>
      exact ih.slice fits (held start List.mem_cons_self)
        (held stop (List.mem_cons_of_mem _ List.mem_cons_self)) default _

theorem bare_eq (phrase : Phrase front back words node) : node.bare = node := by
  have bareAll_eq : ∀ {items : List Operand}, (∀ item ∈ items, item.node.bare = item.node) →
      Node.bareAll (items.map Operand.node) = items.map Operand.node := by
    intro items all
    induction items with
    | nil => rw [List.map_nil, Node.bareAll]
    | cons item items ih =>
      obtain ⟨first, all⟩ := List.forall_mem_cons.1 all
      rw [List.map_cons, Node.bareAll, first, ih all]
  induction phrase with
  | atom => rw [Parser.bare_atom]; rfl
  | none => rw [Node.bare]
  | group _ ih => exact ih
  | array _ _ ih => rw [Node.bare, bareAll_eq ih]
  | unary _ _ _ ih => rw [Node.bare, ih]
  | binary _ _ _ _ _ ih ih' => rw [Node.bare, ih, ih']
  | suffix _ _ suffix _ ih ih' =>
    cases suffix with
    | call arguments =>
      have same : ∀ item ∈ arguments, item.node.bare = item.node := ih'
      rw [Suffix.attach, Node.bare, ih, bareAll_eq same]
    | element index => rw [Suffix.attach, Node.bare, ih, ih' index List.mem_cons_self]
    | slice start stop =>
      rw [Suffix.attach, Node.bare, ih, ih' start List.mem_cons_self,
        ih' stop (List.mem_cons_of_mem _ List.mem_cons_self)]

theorem attached {suffixes : List Suffix} (phrase : Phrase front back words node)
    (fits : Precedence.suffix ≤ back) (proper : ∀ suffix ∈ suffixes, suffix.Proper) :
    ∃ front' back', min front Precedence.suffix ≤ front' ∧
      Phrase front' back' (words ++ suffixes.flatMap Suffix.words) (suffixes.foldl Suffix.attach node) := by
  induction suffixes generalizing front back words node with
  | nil => exact ⟨front, back, Nat.min_le_left _ _, by rwa [List.flatMap_nil, List.append_nil]⟩
  | cons suffix others ih =>
    obtain ⟨first, proper⟩ := List.forall_mem_cons.1 proper
    obtain ⟨front', back', binds, whole⟩ := ih (.suffix phrase fits suffix first) (by decide) proper
    refine ⟨front', back', Nat.le_trans (Nat.le_min.2 ⟨Nat.le_refl _, Nat.min_le_right _ _⟩) binds, ?_⟩
    rwa [List.append_assoc] at whole

end Phrase

end TabScript
