import TabScript.Proofs.Grouping.Held

/-! Expressions that are written are read again.

The words of an expression are held together as strongly as its operator binds. An operand that is held together
less strongly than it has to be stands in parentheses. -/

set_option autoImplicit false

namespace TabScript

open Token (mark keyword name constant enclosed commas pull)

namespace Operator

theorem IsBinary.trailing?_eq {operator : Operator} (proper : operator.IsBinary) :
    Grammar.standard.trailing? operator.symbol = some ⟨.binary, operator.strength⟩ := by
  cases operator <;> first | rfl | cases proper

theorem IsBinary.bounds {operator : Operator} (proper : operator.IsBinary) :
    Precedence.assignment < operator.strength ∧ operator.strength ≤ Precedence.suffix := by
  cases operator <;> first | decide | cases proper

theorem IsUnary.leading?_eq {operator : Operator} (proper : operator.IsUnary) :
    Grammar.standard.leading? operator.symbol = some (.unary Precedence.unary) := by
  cases operator <;> first | rfl | cases proper

end Operator

theorem Node.assignment_lt_strength {node : Node} (proper : node.IsExpression) :
    Precedence.assignment < node.strength := by
  cases node with
  | binary _ operator _ left right =>
    rw [IsExpression] at proper
    exact proper.1.bounds.1
  | _ => simp [strength, Precedence.assignment, Precedence.unary, Precedence.suffix]

namespace Node

open TabScript.Parser

variable {node : Node} {rest : List Token} {budget least : Nat}

/-- The node is read from its words, given a budget for them, in front of whatever does not bind more
strongly than it is held together. -/
def Climbs (node : Node) : Prop := Holds node.strength node.strength node node.words

theorem Climbs.reads (climbs : node.Climbs) (room : 2 * node.words.length + 1 ≤ budget)
    (binds : least < node.strength) (stops : pull rest ≤ least) :
    Reads (expression .standard budget least) node.words rest fun found => found.bare = node.bare :=
  Holds.reads climbs room binds stops (Nat.le_trans stops (Nat.le_of_lt binds))

theorem Climbs.enclosed (climbs : node.Climbs) (proper : node.IsExpression) {needed : Bool} {bound : Nat}
    (fits : needed = false → bound ≤ node.strength) :
    Holds bound bound node (Token.enclosed needed node.words) := by
  cases needed with
  | false => exact Holds.weaken climbs (fits rfl) (fits rfl)
  | true => exact Holds.group climbs (assignment_lt_strength proper) bound bound

theorem climbs_constant (span : Span) (value : Literal) : (Node.literal span (some value)).Climbs := by
  refine holds_atom (by cases value <;> rfl) (fun token heads => ?_) _ _
  obtain ⟨kind, found, place⟩ := token
  cases value <;> cases heads <;> rfl

theorem climbs_identifier (span : Span) (word : String) : (Node.identifier span word).Climbs := by
  refine holds_atom rfl (fun token heads => ?_) _ _
  obtain ⟨kind, found, place⟩ := token
  cases heads
  rfl

theorem climbs_unary {span operatorSpan : Span} {operator : Operator} {operand : Node}
    (proper : operator.IsUnary) (climbs : operand.Climbs) (inner : operand.IsExpression) :
    (Node.unary span operator operatorSpan operand).Climbs := by
  have inside : Holds (Precedence.unary + 1) (Precedence.unary + 1) operand
      (Token.enclosed (decide (operand.strength ≤ Precedence.unary)) operand.words) :=
    climbs.enclosed inner fun closed => Nat.succ_le_of_lt (by simpa using closed)
  rw [Climbs, words]
  exact inside.unary proper.leading?_eq proper (Nat.lt_succ_self _) _

theorem climbs_binary {span operatorSpan : Span} {operator : Operator} {left right : Node}
    (proper : operator.IsBinary) (first : left.Climbs) (firstProper : left.IsExpression)
    (second : right.Climbs) (secondProper : right.IsExpression) :
    (Node.binary span operator operatorSpan left right).Climbs := by
  -- to the left the same power needs no parentheses, to the right it does
  have before : Holds operator.strength operator.strength left
      (Token.enclosed (decide (left.strength < operator.strength)) left.words) :=
    first.enclosed firstProper fun closed => by simpa using closed
  have behind : Holds (operator.strength + 1) (operator.strength + 1) right
      (Token.enclosed (decide (right.strength ≤ operator.strength)) right.words) :=
    second.enclosed secondProper fun closed => Nat.succ_le_of_lt (by simpa using closed)
  have whole : Holds _ _ (.binary span operator operatorSpan left right) _ :=
    before.binary proper.trailing?_eq proper (Nat.le_refl _) behind (Nat.lt_succ_self _)
  rw [Climbs, words]
  exact whole.weaken (by simp [strength]) (by simp [strength])

def operand (node : Node) : Operand := ⟨node.strength, node.strength, node.words, node⟩

theorem Climbs.held (climbs : node.Climbs) (proper : node.IsExpression) : node.operand.Held :=
  ⟨climbs, assignment_lt_strength proper, node.words_cons proper⟩

theorem listed_operands (nodes : List Node) :
    Operand.listed false (nodes.map operand) = commas (wordsAll nodes) := by
  induction nodes with
  | nil => rfl
  | cons node others ih =>
    cases others with
    | nil => exact List.append_nil _
    | cons second others => exact congrArg (node.words ++ mark "," :: ·) ih

theorem map_operands (nodes : List Node) : (nodes.map operand).map Operand.node = nodes := by
  rw [List.map_map]
  exact List.map_id nodes

theorem held_operands {nodes : List Node} (all : ∀ node ∈ nodes, node.Climbs ∧ node.IsExpression) :
    ∀ part ∈ nodes.map operand, part.Held := by
  intro part inside
  obtain ⟨node, member, rfl⟩ := List.mem_map.1 inside
  exact (all node member).1.held (all node member).2

theorem climbs_array {span : Span} {items : List Node}
    (all : ∀ node ∈ items, node.Climbs ∧ node.IsExpression) : (Node.array span items).Climbs := by
  have whole := holds_array (held_operands all) false span (Precedence.suffix + 1) (Precedence.suffix + 1)
  rw [map_operands, listed_operands] at whole
  exact whole

theorem Climbs.target (climbs : node.Climbs) (proper : node.IsExpression) :
    Holds Precedence.suffix Precedence.suffix node
      (Token.enclosed (decide (node.strength < Precedence.suffix)) node.words) :=
  climbs.enclosed proper fun closed => by simpa using closed

theorem climbs_call {span : Span} {callee : Node} {arguments : List Node} (climbs : callee.Climbs)
    (proper : callee.IsExpression) (all : ∀ node ∈ arguments, node.Climbs ∧ node.IsExpression) :
    (Node.call span callee arguments).Climbs := by
  have whole := (climbs.target proper).call (Nat.le_refl _) (held_operands all) false span Precedence.suffix
  rw [map_operands, listed_operands] at whole
  rwa [Climbs, words]

theorem climbs_element {span : Span} {target index : Node} (climbs : target.Climbs)
    (proper : target.IsExpression) (inner : index.Climbs) (innerProper : index.IsExpression) :
    (Node.element span target index).Climbs := by
  rw [Climbs, words]
  exact (climbs.target proper).element (Nat.le_refl _) (inner.held innerProper) span _

theorem climbs_slice {span : Span} {target start stop : Node} (climbs : target.Climbs)
    (proper : target.IsExpression) (first : start.Climbs) (firstProper : start.IsExpression)
    (last : stop.Climbs) (lastProper : stop.IsExpression) :
    (Node.slice span target start stop).Climbs := by
  rw [Climbs, words]
  exact (climbs.target proper).slice (Nat.le_refl _) (first.held firstProper) (last.held lastProper) span _

mutual

theorem climbs : ∀ node : Node, node.IsExpression → node.Climbs
  | .literal span none, _ => holds_none span _ _
  | .literal span (some value), _ => climbs_constant span value
  | .identifier span word, _ => climbs_identifier span word
  | .unary _ _ _ operand, proper => by
    rw [IsExpression] at proper
    exact climbs_unary proper.1 (climbs operand proper.2) proper.2
  | .binary _ _ _ left right, proper => by
    rw [IsExpression] at proper
    exact climbs_binary proper.1 (climbs left proper.2.1) proper.2.1 (climbs right proper.2.2) proper.2.2
  | .call _ callee arguments, proper => by
    rw [IsExpression] at proper
    exact climbs_call (climbs callee proper.1) proper.1 (climbs_all arguments proper.2)
  | .element _ target index, proper => by
    rw [IsExpression] at proper
    exact climbs_element (climbs target proper.1) proper.1 (climbs index proper.2) proper.2
  | .slice _ target start stop, proper => by
    rw [IsExpression] at proper
    exact climbs_slice (climbs target proper.1) proper.1 (climbs start proper.2.1) proper.2.1
      (climbs stop proper.2.2) proper.2.2
  | .array _ items, proper => by
    rw [IsExpression] at proper
    exact climbs_array (climbs_all items proper)
  | .assignment .., proper | .choice .., proper | .loop .., proper | .definition .., proper
  | .result .., proper | .pass _, proper | .deletion .., proper => by
    rw [IsExpression] at proper
    · exact proper.elim
    all_goals nofun

theorem climbs_all : ∀ nodes : List Node, AreExpressions nodes →
    ∀ node ∈ nodes, node.Climbs ∧ node.IsExpression
  | [], _ => fun _ inside => absurd inside List.not_mem_nil
  | node :: nodes, proper => by
    rw [List.forall_mem_cons]
    exact ⟨⟨climbs node proper.1, proper.1⟩, climbs_all nodes proper.2⟩

end

end Node

end TabScript
