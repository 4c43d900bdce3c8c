import TabScript.Grammar.Tree
import TabScript.Proofs.Pointing.Lines

/-! Trees that were read from a text.

Every node stands on a line of the text, and every operator too. A block covers its statements; what closes it
may stand behind the last line. -/

set_option autoImplicit false

namespace TabScript

mutual

def Node.Sited (source : List Char) : Node → Prop
  | .literal span _ | .identifier span _ | .pass span | .result span none => span.PointsInto source
  | .unary span _ operatorSpan operand =>
    span.PointsInto source ∧ operatorSpan.PointsInto source ∧ operand.Sited source
  | .binary span _ operatorSpan left right =>
    span.PointsInto source ∧ operatorSpan.PointsInto source ∧ left.Sited source ∧ right.Sited source
  | .call span callee arguments =>
    span.PointsInto source ∧ callee.Sited source ∧ Node.AreSited source arguments
  | .element span target index => span.PointsInto source ∧ target.Sited source ∧ index.Sited source
  | .slice span target start stop =>
    span.PointsInto source ∧ target.Sited source ∧ start.Sited source ∧ stop.Sited source
  | .array span items => span.PointsInto source ∧ Node.AreSited source items
  | .assignment span target value => span.PointsInto source ∧ target.Sited source ∧ value.Sited source
  | .choice span condition body others otherwise =>
    span.PointsInto source ∧ condition.Sited source ∧ body.Sited source ∧
      Branch.AreSited source others ∧ Block.Sited? source otherwise
  | .loop span condition body => span.PointsInto source ∧ condition.Sited source ∧ body.Sited source
  | .definition span _ _ body => span.PointsInto source ∧ body.Sited source
  | .result span (some value) => span.PointsInto source ∧ value.Sited source
  | .deletion span target => span.PointsInto source ∧ target.Sited source

def Block.Sited (source : List Char) : Block → Prop
  | .of span statements => span.Runs ∧ Node.AreSited source statements

def Block.Sited? (source : List Char) : Option Block → Prop
  | none => True
  | some block => block.Sited source

def Branch.AreSited (source : List Char) : List Branch → Prop
  | [] => True
  | .of condition body :: others =>
    (condition.Sited source ∧ body.Sited source) ∧ Branch.AreSited source others

def Node.AreSited (source : List Char) : List Node → Prop
  | [] => True
  | node :: nodes => node.Sited source ∧ Node.AreSited source nodes

end

variable {source : List Char}

namespace Node

theorem areSited_iff {nodes : List Node} :
    AreSited source nodes ↔ ∀ node ∈ nodes, node.Sited source := by
  induction nodes with
  | nil => simp [AreSited]
  | cons node nodes ih => simp [AreSited, ih]

theorem areSited_reverse {nodes : List Node} :
    AreSited source nodes.reverse ↔ AreSited source nodes := by
  simp only [areSited_iff, List.mem_reverse]

theorem Sited.span {node : Node} (sited : node.Sited source) : node.span.PointsInto source := by
  cases node with
  | literal | identifier | pass => exact sited
  | result _ value => cases value with
    | none => exact sited
    | some value => exact sited.1
  | _ => exact sited.1

theorem Sited.withSpan {node : Node} (sited : node.Sited source) {span : Span}
    (points : span.PointsInto source) : (node.withSpan span).Sited source := by
  cases node with
  | literal | identifier | pass => exact points
  | result _ value => cases value with
    | none => exact points
    | some value => exact ⟨points, sited.2⟩
  | _ => exact ⟨points, sited.2⟩

end Node

namespace Block

theorem Sited.runs {block : Block} (sited : block.Sited source) : block.span.Runs := by
  cases block
  exact sited.1

theorem Sited.statements {block : Block} (sited : block.Sited source) :
    Node.AreSited source block.statements := by
  cases block
  exact sited.2

end Block

namespace Branch

theorem areSited_iff {branches : List Branch} :
    AreSited source branches ↔
      ∀ branch ∈ branches, branch.condition.Sited source ∧ branch.body.Sited source := by
  induction branches with
  | nil => simp [AreSited]
  | cons branch others ih =>
    obtain ⟨condition, body⟩ := branch
    simp [AreSited, ih, Branch.condition, Branch.body]

theorem areSited_reverse {branches : List Branch} :
    AreSited source branches.reverse ↔ AreSited source branches := by
  simp only [areSited_iff, List.mem_reverse]

end Branch

end TabScript
