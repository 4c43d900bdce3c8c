import TabScript.Grammar.Tree

/-! Trees in which statements and expressions stand where they belong.

One type holds expressions and statements. Here a statement stands only as a part of a block, and what is
assigned to or deleted can be. -/

set_option autoImplicit false

namespace TabScript

mutual

def Node.IsOperand : Node → Prop
  | .literal .. | .identifier .. => True
  | .unary _ _ _ operand => operand.IsOperand
  | .binary _ _ _ left right => left.IsOperand ∧ right.IsOperand
  | .call _ callee arguments => callee.IsOperand ∧ Node.AreOperands arguments
  | .element _ target index => target.IsOperand ∧ index.IsOperand
  | .slice _ target start stop => target.IsOperand ∧ start.IsOperand ∧ stop.IsOperand
  | .array _ items => Node.AreOperands items
  | .assignment .. | .choice .. | .loop .. | .definition .. | .result .. | .pass .. | .deletion .. =>
    False

def Node.AreOperands : List Node → Prop
  | [] => True
  | node :: nodes => node.IsOperand ∧ Node.AreOperands nodes

end

mutual

/-- A statement that fits: its operands are expressions, its target can be assigned to or deleted, its
blocks are not empty, and no two of its parameters have one name. -/
def Node.IsProper : Node → Prop
  | .assignment _ target value =>
    (target.isAssignable = true ∧ target.IsOperand) ∧ value.IsOperand
  | .choice _ condition body others otherwise =>
    condition.IsOperand ∧ body.IsFilled ∧ Branch.AreFilled others ∧ Block.IsFilled? otherwise
  | .loop _ condition body => condition.IsOperand ∧ body.IsFilled
  | .definition _ _ parameters body => parameters.Nodup ∧ body.IsFilled
  | .result _ none => True
  | .result _ (some value) => value.IsOperand
  | .pass _ => True
  | .deletion _ target => target.tag = .subscript ∧ target.IsOperand
  | expression => expression.IsOperand

def Block.IsFilled : Block → Prop
  | .of _ statements => statements ≠ [] ∧ Node.AreProper statements

def Block.IsFilled? : Option Block → Prop
  | none => True
  | some block => block.IsFilled

def Branch.AreFilled : List Branch → Prop
  | [] => True
  | .of condition body :: others => (condition.IsOperand ∧ body.IsFilled) ∧ Branch.AreFilled others

def Node.AreProper : List Node → Prop
  | [] => True
  | node :: nodes => node.IsProper ∧ Node.AreProper nodes

end

namespace Node

theorem areOperands_iff {nodes : List Node} :
    AreOperands nodes ↔ ∀ node ∈ nodes, node.IsOperand := by
  induction nodes with
  | nil => simp [AreOperands]
  | cons node nodes ih => simp [AreOperands, ih]

theorem areOperands_reverse {nodes : List Node} :
    AreOperands nodes.reverse ↔ AreOperands nodes := by
  simp only [areOperands_iff, List.mem_reverse]

theorem areProper_iff {nodes : List Node} :
    AreProper nodes ↔ ∀ node ∈ nodes, node.IsProper := by
  induction nodes with
  | nil => simp [AreProper]
  | cons node nodes ih => simp [AreProper, ih]

@[simp] theorem isOperand_withSpan (node : Node) (span : Span) :
    (node.withSpan span).IsOperand ↔ node.IsOperand := by
  cases node <;> simp only [withSpan, IsOperand]

theorem areProper_reverse {nodes : List Node} :
    AreProper nodes.reverse ↔ AreProper nodes := by
  simp only [areProper_iff, List.mem_reverse]

theorem IsOperand.isProper {node : Node} (proper : node.IsOperand) : node.IsProper := by
  cases node <;> first | exact proper | cases proper

end Node

theorem Block.IsFilled.areProper {block : Block} (filled : block.IsFilled) :
    Node.AreProper block.statements := by
  cases block
  exact filled.2

theorem Branch.areFilled_iff {branches : List Branch} :
    Branch.AreFilled branches ↔
      ∀ branch ∈ branches, branch.condition.IsOperand ∧ branch.body.IsFilled := by
  induction branches with
  | nil => simp [AreFilled]
  | cons branch others ih =>
    obtain ⟨condition, body⟩ := branch
    simp [AreFilled, ih, Branch.condition, Branch.body]

theorem Branch.areFilled_reverse {branches : List Branch} :
    Branch.AreFilled branches.reverse ↔ Branch.AreFilled branches := by
  simp only [areFilled_iff, List.mem_reverse]

end TabScript
