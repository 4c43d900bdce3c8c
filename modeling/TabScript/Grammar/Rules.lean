import TabScript.Token.Basic

/-! The rules by which tokens are put together, found by the symbol of a token. -/

set_option autoImplicit false

namespace TabScript

/-! How strongly operators bind: `or` is weaker than `and`, and both are weaker than comparisons;
calls and subscripts are as strong as powers. -/

namespace Precedence

def lowest : Nat := 0
def assignment : Nat := 10
def either : Nat := 20
def both : Nat := 25
def comparison : Nat := 30
def additive : Nat := 50
def multiplicative : Nat := 60
def unary : Nat := 70
def exponent : Nat := 80
def suffix : Nat := 80

end Precedence

inductive LeadingRule where
  | atom
  | noneLiteral
  | group
  | array
  | unary (precedence : Nat)
  deriving DecidableEq, Repr

inductive TrailingForm where
  | binary
  | assign
  | call
  | subscript
  deriving DecidableEq, Repr

structure TrailingRule where
  form : TrailingForm
  precedence : Nat
  deriving DecidableEq, Repr

inductive StatementRule where
  | choice
  | loop
  | definition
  | result
  | pass
  | deletion
  deriving DecidableEq, Repr

private def withPrecedence (name : String) (precedence : Nat) : String :=
  name ++ " \x7b precedence: " ++ toString precedence ++ " \x7d"

def LeadingRule.describe : LeadingRule → String
  | atom => "Atom"
  | noneLiteral => "NoneLiteral"
  | group => "Group"
  | array => "Array"
  | unary precedence => withPrecedence "Unary" precedence

def TrailingRule.describe (rule : TrailingRule) : String :=
  match rule.form with
  | .binary => withPrecedence "Binary" rule.precedence
  | .assign => withPrecedence "Assign" rule.precedence
  | .call => withPrecedence "Call" rule.precedence
  | .subscript => withPrecedence "Subscript" rule.precedence

def StatementRule.describe : StatementRule → String
  | choice => "If"
  | loop => "While"
  | definition => "Def"
  | result => "Return"
  | pass => "Pass"
  | deletion => "Del"

/-- Rules by symbol. A rule stands before the ones that it replaces. -/
structure Grammar where
  leading : List (String × LeadingRule)
  trailing : List (String × TrailingRule)
  statements : List (String × StatementRule)
  deriving Repr

namespace Grammar

def empty : Grammar := ⟨[], [], []⟩

def addLeading (grammar : Grammar) (symbol : String) (rule : LeadingRule) : Grammar :=
  { grammar with leading := (symbol, rule) :: grammar.leading }

def addTrailing (grammar : Grammar) (symbol : String) (rule : TrailingRule) : Grammar :=
  { grammar with trailing := (symbol, rule) :: grammar.trailing }

def addStatement (grammar : Grammar) (symbol : String) (rule : StatementRule) : Grammar :=
  { grammar with statements := (symbol, rule) :: grammar.statements }

def leading? (grammar : Grammar) (symbol : String) : Option LeadingRule :=
  grammar.leading.lookup symbol

def trailing? (grammar : Grammar) (symbol : String) : Option TrailingRule :=
  grammar.trailing.lookup symbol

def statement? (grammar : Grammar) (symbol : String) : Option StatementRule :=
  grammar.statements.lookup symbol

/-- How strongly a symbol binds behind a left operand, zero if it does not. -/
def precedence (grammar : Grammar) (symbol : String) : Nat :=
  ((grammar.trailing? symbol).map TrailingRule.precedence).getD 0

def standard : Grammar where
  leading :=
    [(Token.atom, .atom), ("None", .noneLiteral), ("(", .group), ("[", .array)] ++
      ["+", "-", "not", "!"].map fun symbol => (symbol, .unary Precedence.unary)
  trailing :=
    [("=", ⟨.assign, Precedence.assignment⟩), ("or", ⟨.binary, Precedence.either⟩),
      ("and", ⟨.binary, Precedence.both⟩), ("(", ⟨.call, Precedence.suffix⟩),
      ("[", ⟨.subscript, Precedence.suffix⟩), ("**", ⟨.binary, Precedence.exponent⟩)] ++
      (["==", "!=", "<", "<=", ">", ">=", "is"].map fun symbol =>
        (symbol, ⟨.binary, Precedence.comparison⟩)) ++
      (["+", "-"].map fun symbol => (symbol, ⟨.binary, Precedence.additive⟩)) ++
      ["*", "/", "%"].map fun symbol => (symbol, ⟨.binary, Precedence.multiplicative⟩)
  statements :=
    [("if", .choice), ("while", .loop), ("def", .definition), ("return", .result),
      ("pass", .pass), ("del", .deletion)]

end Grammar

end TabScript
