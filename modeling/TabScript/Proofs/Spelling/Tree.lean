import TabScript.Proofs.Printing.Printer

/-! The tokens that a tree stands for, read off from left to right.

No parentheses are put around operands, and no comma behind the last of several parts. An expression is
spelled on the line of its statement; a simple statement ends with its line, and a block is spelled with
the colon and the line end in front of it and with the tokens that open and close it. -/

set_option autoImplicit false

namespace TabScript

open Token (mark keyword name constant layout commas)

def Node.isCompound (node : Node) : Bool :=
  node.tag = .choice ∨ node.tag = .loop ∨ node.tag = .definition

def Node.stop (node : Node) : List Token :=
  if node.isCompound then [] else [layout .newline]

mutual

def Node.spelling : Node → List Token
  | .literal _ none => [keyword "None"]
  | .literal _ (some value) => [constant value]
  | .identifier _ word => [name word]
  | .unary _ operator _ operand => mark operator.symbol :: operand.spelling
  | .binary _ operator _ left right => left.spelling ++ mark operator.symbol :: right.spelling
  | .call _ callee arguments =>
    callee.spelling ++ mark "(" :: (commas (Node.spellings arguments) ++ [mark ")"])
  | .element _ target index => target.spelling ++ mark "[" :: (index.spelling ++ [mark "]"])
  | .slice _ target start stop =>
    target.spelling ++ mark "[" :: (start.spelling ++ mark ":" :: (stop.spelling ++ [mark "]"]))
  | .array _ items => mark "[" :: (commas (Node.spellings items) ++ [mark "]"])
  | .assignment _ target value => target.spelling ++ mark "=" :: value.spelling
  | .choice _ condition body others none =>
    keyword "if" :: (condition.spelling ++ (body.spelling ++ Branch.spelling others))
  | .choice _ condition body others (some last) =>
    keyword "if" :: (condition.spelling ++ (body.spelling ++ (Branch.spelling others ++
      keyword "else" :: last.spelling)))
  | .loop _ condition body => keyword "while" :: (condition.spelling ++ body.spelling)
  | .definition _ word parameters body =>
    keyword "def" :: name word :: mark "(" ::
      (commas (parameters.map fun parameter => [name parameter]) ++ mark ")" :: body.spelling)
  | .result _ none => [keyword "return"]
  | .result _ (some value) => keyword "return" :: value.spelling
  | .pass _ => [keyword "pass"]
  | .deletion _ target => keyword "del" :: target.spelling

def Node.spellings : List Node → List (List Token)
  | [] => []
  | node :: nodes => node.spelling :: Node.spellings nodes

/-- The tokens of statements, one behind the other, each with its end. -/
def Node.sentences : List Node → List Token
  | [] => []
  | node :: nodes => node.spelling ++ (node.stop ++ Node.sentences nodes)

def Block.spelling : Block → List Token
  | .of _ statements =>
    mark ":" :: layout .newline :: layout .indent :: (Node.sentences statements ++ [layout .dedent])

def Branch.spelling : List Branch → List Token
  | [] => []
  | .of condition body :: branches =>
    keyword "elif" :: (condition.spelling ++ (body.spelling ++ Branch.spelling branches))

end

def Block.alternative : Option Block → List Token
  | none => []
  | some block => keyword "else" :: block.spelling

namespace Node

theorem spelling_choice (span : Span) (condition : Node) (body : Block) (others : List Branch)
    (otherwise : Option Block) :
    (choice span condition body others otherwise).spelling =
      keyword "if" :: (condition.spelling ++ (body.spelling ++ (Branch.spelling others ++
        Block.alternative otherwise))) := by
  cases otherwise with
  | none => simp only [spelling, Block.alternative, List.append_nil]
  | some last => rfl

theorem spelling_withSpan (node : Node) (span : Span) :
    (node.withSpan span).spelling = node.spelling := by
  cases node with
  | literal _ value => cases value <;> rfl
  | result _ value => cases value <;> rfl
  | choice _ _ _ _ otherwise => cases otherwise <;> rfl
  | _ => rfl

theorem stop_of_simple {node : Node} (simple : node.isCompound = false) :
    node.stop = [layout .newline] := by
  rw [stop, simple]
  rfl

end Node

theorem Token.commas_cons (words : List Token) {others : List (List Token)} (more : others ≠ []) :
    commas (words :: others) = words ++ mark "," :: commas others := by
  cases others with
  | nil => exact absurd rfl more
  | cons => rfl

end TabScript
