import TabScript.Grammar.Expression
import TabScript.Token.Stream

/-! Statements, blocks and whole programs. -/

set_option autoImplicit false

namespace TabScript

namespace Parser

/-- A simple statement ends with its line; the end of a block or of the program also ends it. -/
def endOfLine : Parser Unit := do
  match (← peek).kind with
  | .newline => let _ ← next
  | .endOfProgram | .dedent => return
  | _ => unexpected (some .endOfLine)

def parameters : Nat → List String → Parser (List String)
  | 0, _ => exhausted
  | budget + 1, read => do
    if ← atPunctuator ")" then return read.reverse
    let parameter ← token .identifier
    let name := parameter.text?.getD ""
    if read.contains name then fail ⟨.duplicateParameter name, parameter.span⟩
    match ← punctuator? "," with
    | some _ => parameters budget (name :: read)
    | none => return (name :: read).reverse

/-- The stretch of a block: that of its statements, if it has any. -/
def spanOf (statements : List Node) (otherwise : Span) : Span :=
  (Span.unionAll (statements.map Node.span)).getD otherwise

mutual

def statement (grammar : Grammar) : Nat → Parser Node
  | 0 => exhausted
  | budget + 1 => do
    let first ← peek
    let rule := if first.kind = .keyword then grammar.statement? first.symbol else none
    match rule with
    | none =>
      let node ← expression grammar budget Precedence.lowest
      endOfLine
      return node
    | some rule =>
      let keyword ← next
      compound grammar budget rule keyword

def compound (grammar : Grammar) : Nat → StatementRule → Token → Parser Node
  | 0, _, _ => exhausted
  | budget + 1, rule, keyword =>
    match rule with
    | .choice => do
      let condition ← expression grammar budget Precedence.assignment
      let body ← block grammar budget
      let others ← branches grammar budget []
      let otherwise ← alternative grammar budget
      let blocks := body :: others.map Branch.body ++ otherwise.toList
      let span := (blocks.map Block.span).foldl Span.union keyword.span
      return .choice span condition body others otherwise
    | .loop => do
      let condition ← expression grammar budget Precedence.assignment
      let body ← block grammar budget
      return .loop (keyword.span.union body.span) condition body
    | .definition => do
      let name ← token .identifier
      let _ ← punctuator "("
      let names ← parameters budget []
      let _ ← punctuator ")"
      let body ← block grammar budget
      return .definition (keyword.span.union body.span) (name.text?.getD "") names body
    | .result => do
      match (← peek).kind with
      | .newline | .dedent | .endOfProgram =>
        endOfLine
        return .result keyword.span none
      | _ =>
        let value ← expression grammar budget Precedence.assignment
        endOfLine
        return .result (keyword.span.union value.span) (some value)
    | .pass => do
      endOfLine
      return .pass keyword.span
    | .deletion => do
      let target ← expression grammar budget Precedence.assignment
      if target.tag ≠ .subscript then fail ⟨.undeletable, target.span⟩
      endOfLine
      return .deletion (keyword.span.union target.span) target

def branches (grammar : Grammar) : Nat → List Branch → Parser (List Branch)
  | 0, _ => exhausted
  | budget + 1, read => do
    if ← atKeyword "elif" then
      let _ ← next
      let condition ← expression grammar budget Precedence.assignment
      let body ← block grammar budget
      branches grammar budget (.of condition body :: read)
    else
      return read.reverse

def alternative (grammar : Grammar) : Nat → Parser (Option Block)
  | 0 => exhausted
  | budget + 1 => do
    if ← atKeyword "else" then
      let _ ← next
      return some (← block grammar budget)
    else
      return none

def block (grammar : Grammar) : Nat → Parser Block
  | 0 => exhausted
  | budget + 1 => do
    let _ ← punctuator ":"
    let _ ← token .newline
    let _ ← token .indent
    skipNewlines
    let atEnd := fun kind => decide (kind = .dedent ∨ kind = .endOfProgram)
    let statements ← statements grammar budget atEnd []
    let dedent ← token .dedent
    return .of (spanOf statements dedent.span) statements

/-- Statements up to a token of a kind that ends them. `read` holds those so far, the last one
first. -/
def statements (grammar : Grammar) : Nat → (TokenKind → Bool) → List Node → Parser (List Node)
  | 0, _, _ => exhausted
  | budget + 1, ends, read => do
    if ends (← peek).kind then return read.reverse
    let node ← statement grammar budget
    skipNewlines
    statements grammar budget ends (node :: read)

end

def budgetFor (count : Nat) : Nat := 5 * count + 20

def program (grammar : Grammar) : Parser Block := do
  let budget := budgetFor (← get).upcoming.length
  skipNewlines
  let nodes ← statements grammar budget (fun kind => kind = .endOfProgram) []
  return .of (spanOf nodes (.point (← peek).span.start)) nodes

end Parser

def parseTokens (grammar : Grammar) (tokens : List Token) : Except Fault Block :=
  (Parser.program grammar (.ofTokens tokens)).map Prod.fst

def parse (source : String) : Except Fault Block := do
  parseTokens .standard (← tokenize source)

end TabScript
