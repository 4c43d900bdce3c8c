import TabScript.Grammar.Statement
import TabScript.Proofs.Printing.Layout

/-! Programs written out.

Every statement begins a line of its own. Parentheses stand only where an operand would otherwise be
taken apart: around a left operand, a callee or the target of a subscript that binds less strongly
than what follows it, and around a right operand, or the only one, that does not bind more strongly than
the operator before it. -/

set_option autoImplicit false

namespace TabScript

open Token (mark keyword name constant layout)

namespace Operator

def strength (operator : Operator) : Nat := Grammar.standard.precedence operator.symbol

def IsBinary (operator : Operator) : Prop := binary? operator.symbol = some operator

def IsUnary (operator : Operator) : Prop := unary? operator.symbol = some operator

end Operator

/-- How strongly an expression is held together. Nothing can take apart one that is closed. -/
def Node.strength : Node → Nat
  | .binary _ operator _ _ _ => operator.strength
  | .unary .. => Precedence.unary
  | .call .. | .element .. | .slice .. => Precedence.suffix
  | _ => Precedence.suffix + 1

namespace Token

def enclosed (needed : Bool) (tokens : List Token) : List Token :=
  if needed then mark "(" :: (tokens ++ [mark ")"]) else tokens

def commas : List (List Token) → List Token
  | [] => []
  | [tokens] => tokens
  | tokens :: others => tokens ++ mark "," :: commas others

end Token

open Token (enclosed commas)

mutual

def Node.words : Node → List Token
  | .literal _ none => [keyword "None"]
  | .literal _ (some value) => [constant value]
  | .identifier _ word => [name word]
  | .unary _ operator _ operand =>
    mark operator.symbol :: enclosed (operand.strength ≤ Precedence.unary) operand.words
  | .binary _ operator _ left right =>
    enclosed (left.strength < operator.strength) left.words ++
      mark operator.symbol :: enclosed (right.strength ≤ operator.strength) right.words
  | .call _ callee arguments =>
    enclosed (callee.strength < Precedence.suffix) callee.words ++
      mark "(" :: (commas (Node.wordsAll arguments) ++ [mark ")"])
  | .element _ target index =>
    enclosed (target.strength < Precedence.suffix) target.words ++
      mark "[" :: (index.words ++ [mark "]"])
  | .slice _ target start stop =>
    enclosed (target.strength < Precedence.suffix) target.words ++
      mark "[" :: (start.words ++ mark ":" :: (stop.words ++ [mark "]"]))
  | .array _ items => mark "[" :: (commas (Node.wordsAll items) ++ [mark "]"])
  | _ => []

def Node.wordsAll : List Node → List (List Token)
  | [] => []
  | node :: nodes => node.words :: Node.wordsAll nodes

end

mutual

def Node.lines (depth : Nat) : Node → List Line
  | .assignment _ target value => [⟨depth, target.words ++ mark "=" :: value.words⟩]
  | .choice _ condition body others none =>
    ⟨depth, keyword "if" :: (condition.words ++ [mark ":"])⟩ ::
      (body.lines (depth + 1) ++ Branch.linesAll depth others)
  | .choice _ condition body others (some last) =>
    ⟨depth, keyword "if" :: (condition.words ++ [mark ":"])⟩ ::
      (body.lines (depth + 1) ++ (Branch.linesAll depth others ++
        ⟨depth, [keyword "else", mark ":"]⟩ :: last.lines (depth + 1)))
  | .loop _ condition body =>
    ⟨depth, keyword "while" :: (condition.words ++ [mark ":"])⟩ :: body.lines (depth + 1)
  | .definition _ word parameters body =>
    ⟨depth, keyword "def" :: name word :: mark "(" ::
      (commas (parameters.map fun parameter => [name parameter]) ++ [mark ")", mark ":"])⟩ ::
        body.lines (depth + 1)
  | .result _ none => [⟨depth, [keyword "return"]⟩]
  | .result _ (some value) => [⟨depth, keyword "return" :: value.words⟩]
  | .pass _ => [⟨depth, [keyword "pass"]⟩]
  | .deletion _ target => [⟨depth, keyword "del" :: target.words⟩]
  | expression => [⟨depth, expression.words⟩]

def Node.linesAll (depth : Nat) : List Node → List Line
  | [] => []
  | node :: nodes => node.lines depth ++ Node.linesAll depth nodes

def Block.lines (depth : Nat) : Block → List Line
  | .of _ statements => Node.linesAll depth statements

def Branch.linesAll (depth : Nat) : List Branch → List Line
  | [] => []
  | .of condition body :: branches =>
    ⟨depth, keyword "elif" :: (condition.words ++ [mark ":"])⟩ ::
      (body.lines (depth + 1) ++ Branch.linesAll depth branches)

end

def Block.printed (program : Block) : String :=
  String.ofList ((program.lines 0).flatMap Line.written)

mutual

def Node.script : Node → List Token
  | .assignment _ target value => target.words ++ mark "=" :: (value.words ++ [layout .newline])
  | .choice _ condition body others none =>
    keyword "if" :: (condition.words ++ (body.script ++ Branch.scripts others))
  | .choice _ condition body others (some last) =>
    keyword "if" :: (condition.words ++ (body.script ++ (Branch.scripts others ++
      keyword "else" :: last.script)))
  | .loop _ condition body => keyword "while" :: (condition.words ++ body.script)
  | .definition _ word parameters body =>
    keyword "def" :: name word :: mark "(" ::
      (commas (parameters.map fun parameter => [name parameter]) ++ mark ")" :: body.script)
  | .result _ none => [keyword "return", layout .newline]
  | .result _ (some value) => keyword "return" :: (value.words ++ [layout .newline])
  | .pass _ => [keyword "pass", layout .newline]
  | .deletion _ target => keyword "del" :: (target.words ++ [layout .newline])
  | expression => expression.words ++ [layout .newline]

def Node.scripts : List Node → List Token
  | [] => []
  | node :: nodes => node.script ++ Node.scripts nodes

def Block.script : Block → List Token
  | .of _ statements =>
    mark ":" :: layout .newline :: layout .indent :: (Node.scripts statements ++ [layout .dedent])

def Branch.scripts : List Branch → List Token
  | [] => []
  | .of condition body :: branches =>
    keyword "elif" :: (condition.words ++ (body.script ++ Branch.scripts branches))

end

mutual

def Node.bare : Node → Node
  | .literal _ value => .literal default value
  | .identifier _ word => .identifier default word
  | .unary _ operator _ operand => .unary default operator default operand.bare
  | .binary _ operator _ left right => .binary default operator default left.bare right.bare
  | .call _ callee arguments => .call default callee.bare (Node.bareAll arguments)
  | .element _ target index => .element default target.bare index.bare
  | .slice _ target start stop => .slice default target.bare start.bare stop.bare
  | .array _ items => .array default (Node.bareAll items)
  | .assignment _ target value => .assignment default target.bare value.bare
  | .choice _ condition body others none =>
    .choice default condition.bare body.bare (Branch.bareAll others) none
  | .choice _ condition body others (some last) =>
    .choice default condition.bare body.bare (Branch.bareAll others) (some last.bare)
  | .loop _ condition body => .loop default condition.bare body.bare
  | .definition _ word parameters body => .definition default word parameters body.bare
  | .result _ none => .result default none
  | .result _ (some value) => .result default (some value.bare)
  | .pass _ => .pass default
  | .deletion _ target => .deletion default target.bare

def Node.bareAll : List Node → List Node
  | [] => []
  | node :: nodes => node.bare :: Node.bareAll nodes

def Block.bare : Block → Block
  | .of _ statements => .of default (Node.bareAll statements)

def Branch.bareAll : List Branch → List Branch
  | [] => []
  | .of condition body :: branches => .of condition.bare body.bare :: Branch.bareAll branches

end

theorem Node.bare_withSpan (node : Node) (span : Span) : (node.withSpan span).bare = node.bare := by
  cases node with
  | choice _ _ _ _ otherwise => cases otherwise <;> simp only [withSpan, bare]
  | result _ value => cases value <;> simp only [withSpan, bare]
  | _ => simp only [withSpan, bare]

theorem Node.tag_bare (node : Node) : node.bare.tag = node.tag := by
  cases node with
  | choice _ _ _ _ otherwise => cases otherwise <;> simp only [bare, tag]
  | result _ value => cases value <;> simp only [bare, tag]
  | _ => simp only [bare, tag]

theorem Node.bareAll_append (first second : List Node) :
    Node.bareAll (first ++ second) = Node.bareAll first ++ Node.bareAll second := by
  induction first with
  | nil => rw [bareAll, List.nil_append, List.nil_append]
  | cons node nodes ih => rw [List.cons_append, bareAll, bareAll, ih, List.cons_append]

mutual

/-- An expression that can be written: its names are words, its constants can be written out, and there
is no statement in it. -/
def Node.IsExpression : Node → Prop
  | .literal _ none => True
  | .literal _ (some value) => value.Writable
  | .identifier _ word => Token.IsName word
  | .unary _ operator _ operand => operator.IsUnary ∧ operand.IsExpression
  | .binary _ operator _ left right => operator.IsBinary ∧ left.IsExpression ∧ right.IsExpression
  | .call _ callee arguments => callee.IsExpression ∧ Node.AreExpressions arguments
  | .element _ target index => target.IsExpression ∧ index.IsExpression
  | .slice _ target start stop => target.IsExpression ∧ start.IsExpression ∧ stop.IsExpression
  | .array _ items => Node.AreExpressions items
  | _ => False

def Node.AreExpressions : List Node → Prop
  | [] => True
  | node :: nodes => node.IsExpression ∧ Node.AreExpressions nodes

end

mutual

def Node.IsStatement : Node → Prop
  | .assignment _ target value =>
    target.isAssignable = true ∧ target.IsExpression ∧ value.IsExpression
  | .choice _ condition body others none =>
    condition.IsExpression ∧ body.IsWritten ∧ Branch.AreWritten others
  | .choice _ condition body others (some last) =>
    condition.IsExpression ∧ body.IsWritten ∧ Branch.AreWritten others ∧ last.IsWritten
  | .loop _ condition body => condition.IsExpression ∧ body.IsWritten
  | .definition _ word parameters body =>
    Token.IsName word ∧ (∀ parameter ∈ parameters, Token.IsName parameter) ∧ parameters.Nodup ∧
      body.IsWritten
  | .result _ none => True
  | .result _ (some value) => value.IsExpression
  | .pass _ => True
  | .deletion _ target => target.tag = .subscript ∧ target.IsExpression
  | expression => expression.IsExpression

def Node.AreStatements : List Node → Prop
  | [] => True
  | node :: nodes => node.IsStatement ∧ Node.AreStatements nodes

def Block.IsWritten : Block → Prop
  | .of _ statements => statements ≠ [] ∧ Node.AreStatements statements

def Branch.AreWritten : List Branch → Prop
  | [] => True
  | .of condition body :: branches =>
    condition.IsExpression ∧ body.IsWritten ∧ Branch.AreWritten branches

end

end TabScript
