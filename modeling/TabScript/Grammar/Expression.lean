import TabScript.Grammar.Cursor
import TabScript.Grammar.Rules
import TabScript.Grammar.Tree

/-! Expressions by precedence climbing.

The readers call each other to a depth that is bounded by the count of tokens. The bound is handed
down as a budget, one less at every call, so that they are total for every grammar; it runs out only
where a grammar has rules for the end of the program. -/

set_option autoImplicit false

namespace TabScript.Parser

def atom (token : Token) : Node :=
  match token.kind, token.value with
  | .identifier, some (.text name) => .identifier token.span name
  | _, value => .literal token.span value

def notOperator (token : Token) : Fault := ⟨.unexpectedToken token none none, token.span⟩

mutual

/-- An expression whose operators all bind more strongly than the given precedence. Operators of
equal strength group to the left. -/
def expression (grammar : Grammar) : Nat → Nat → Parser Node
  | 0, _ => exhausted
  | budget + 1, least => do
    match grammar.leading? (← peek).symbol with
    | none => unexpected none
    | some rule =>
      let token ← next
      let left ← leading grammar budget rule token
      trailing grammar budget least left

def leading (grammar : Grammar) : Nat → LeadingRule → Token → Parser Node
  | 0, _, _ => exhausted
  | budget + 1, rule, token =>
    match rule with
    | .atom => return atom token
    | .noneLiteral => return .literal token.span none
    | .group => do
      let inner ← expression grammar budget Precedence.assignment
      let close ← punctuator ")"
      return inner.withSpan (token.span.union close.span)
    | .array => do
      let (items, close) ← sequence grammar budget "]" []
      return .array (token.span.union close.span) items
    | .unary precedence =>
      match Operator.unary? token.symbol with
      | none => fail (notOperator token)
      | some operator => do
        let operand ← expression grammar budget precedence
        return .unary (token.span.union operand.span) operator token.span operand

def trailing (grammar : Grammar) : Nat → Nat → Node → Parser Node
  | 0, _, _ => exhausted
  | budget + 1, least, left => do
    match grammar.trailing? (← peek).symbol with
    | none => return left
    | some rule =>
      if least < rule.precedence then
        let token ← next
        let joined ← join grammar budget rule left token
        trailing grammar budget least joined
      else
        return left

def join (grammar : Grammar) : Nat → TrailingRule → Node → Token → Parser Node
  | 0, _, _, _ => exhausted
  | budget + 1, rule, left, token =>
    match rule.form with
    | .binary =>
      match Operator.binary? token.symbol with
      | none => fail (notOperator token)
      | some operator => do
        let right ← expression grammar budget rule.precedence
        return .binary (left.span.union right.span) operator token.span left right
    | .assign =>
      if left.isAssignable then do
        let value ← expression grammar budget rule.precedence
        return .assignment (left.span.union value.span) left value
      else
        fail ⟨.unassignable, token.span⟩
    | .call => do
      let (arguments, close) ← sequence grammar budget ")" []
      return .call (left.span.union close.span) left arguments
    | .subscript => do
      if ← atPunctuator "]" then unexpected (some .index)
      let start ← expression grammar budget Precedence.assignment
      match ← punctuator? ":" with
      | some _ =>
        let stop ← expression grammar budget Precedence.assignment
        let close ← punctuator "]"
        return .slice (left.span.union close.span) left start stop
      | none =>
        let close ← punctuator "]"
        return .element (left.span.union close.span) left start

/-- Expressions with commas between them, up to a closing punctuator. A comma may stand before that
one. `read` holds the expressions so far, the last one first. -/
def sequence (grammar : Grammar) : Nat → String → List Node → Parser (List Node × Token)
  | 0, _, _ => exhausted
  | budget + 1, close, read => do
    match ← punctuator? close with
    | some token => return (read.reverse, token)
    | none =>
      let item ← expression grammar budget Precedence.assignment
      match ← punctuator? "," with
      | some _ => sequence grammar budget close (item :: read)
      | none =>
        let token ← punctuator close
        return ((item :: read).reverse, token)

end

end TabScript.Parser
