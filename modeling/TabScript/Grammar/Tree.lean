import TabScript.Grammar.Operator
import TabScript.Token.Basic

/-! Programs as trees. Every node carries the stretch of text it was read from. -/

set_option autoImplicit false

namespace TabScript

mutual

/-- An expression or a statement. The two share one type because a statement is refused as a value
only when it is evaluated. A literal without a constant is `None`. -/
inductive Node where
  | literal (span : Span) (value : Option Literal)
  | identifier (span : Span) (name : String)
  | unary (span : Span) (operator : Operator) (operatorSpan : Span) (operand : Node)
  | binary (span : Span) (operator : Operator) (operatorSpan : Span) (left right : Node)
  | call (span : Span) (callee : Node) (arguments : List Node)
  | element (span : Span) (target index : Node)
  | slice (span : Span) (target start stop : Node)
  | array (span : Span) (items : List Node)
  | assignment (span : Span) (target value : Node)
  | choice (span : Span) (condition : Node) (body : Block) (others : List Branch)
      (otherwise : Option Block)
  | loop (span : Span) (condition : Node) (body : Block)
  | definition (span : Span) (name : String) (parameters : List String) (body : Block)
  | result (span : Span) (value : Option Node)
  | pass (span : Span)
  | deletion (span : Span) (target : Node)

inductive Block where
  | of (span : Span) (statements : List Node)

inductive Branch where
  | of (condition : Node) (body : Block)

end

instance : Inhabited Node := ⟨.pass default⟩

inductive NodeTag where
  | literal
  | identifier
  | unary
  | binary
  | call
  | subscript
  | arrayLiteral
  | assignment
  | choice
  | loop
  | definition
  | result
  | pass
  | deletion
  deriving DecidableEq, Repr

def NodeTag.name : NodeTag → String
  | literal => "Literal"
  | identifier => "Identifier"
  | unary => "Unary"
  | binary => "Binary"
  | call => "Call"
  | subscript => "Subscript"
  | arrayLiteral => "ArrayLiteral"
  | assignment => "Assignment"
  | choice => "If"
  | loop => "While"
  | definition => "FunctionDef"
  | result => "Return"
  | pass => "Pass"
  | deletion => "Delete"

namespace Block

def span : Block → Span
  | of span _ => span

def statements : Block → List Node
  | of _ statements => statements

end Block

namespace Branch

def condition : Branch → Node
  | of condition _ => condition

def body : Branch → Block
  | of _ body => body

end Branch

namespace Node

def span : Node → Span
  | literal span _ | identifier span _ | unary span _ _ _ | binary span _ _ _ _ | call span _ _
  | element span _ _ | slice span _ _ _ | array span _ | assignment span _ _
  | choice span _ _ _ _ | loop span _ _ | definition span _ _ _ | result span _ | pass span
  | deletion span _ => span

/-- The same node, read from another stretch: parentheses around it count as part of it. -/
def withSpan (node : Node) (span : Span) : Node :=
  match node with
  | literal _ value => literal span value
  | identifier _ name => identifier span name
  | unary _ operator operatorSpan operand => unary span operator operatorSpan operand
  | binary _ operator operatorSpan left right => binary span operator operatorSpan left right
  | call _ callee arguments => call span callee arguments
  | element _ target index => element span target index
  | slice _ target start stop => slice span target start stop
  | array _ items => array span items
  | assignment _ target value => assignment span target value
  | choice _ condition body others otherwise => choice span condition body others otherwise
  | loop _ condition body => loop span condition body
  | definition _ name parameters body => definition span name parameters body
  | result _ value => result span value
  | pass _ => pass span
  | deletion _ target => deletion span target

def tag : Node → NodeTag
  | literal .. => .literal
  | identifier .. => .identifier
  | unary .. => .unary
  | binary .. => .binary
  | call .. => .call
  | element .. | slice .. => .subscript
  | array .. => .arrayLiteral
  | assignment .. => .assignment
  | choice .. => .choice
  | loop .. => .loop
  | definition .. => .definition
  | result .. => .result
  | pass .. => .pass
  | deletion .. => .deletion

def isAssignable (node : Node) : Bool :=
  node.tag = .identifier ∨ node.tag = .subscript

@[simp] theorem span_withSpan (node : Node) (span : Span) : (node.withSpan span).span = span := by
  cases node <;> rfl

@[simp] theorem tag_withSpan (node : Node) (span : Span) : (node.withSpan span).tag = node.tag := by
  cases node <;> rfl

end Node

end TabScript
