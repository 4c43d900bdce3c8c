import TabScript.Source.Span
import TabScript.Number.Text

/-! The words of a program text. -/

set_option autoImplicit false

namespace TabScript

inductive TokenKind where
  | endOfProgram
  | newline
  | indent
  | dedent
  | punctuator
  | keyword
  | identifier
  | boolean
  | number
  | text
  deriving DecidableEq, Repr

namespace TokenKind

def describe : TokenKind → String
  | endOfProgram => "end of program"
  | newline => "end of line"
  | indent => "new line and indentation"
  | dedent => "end of indentation"
  | punctuator => "punctuator"
  | keyword => "keyword"
  | identifier => "identifier"
  | boolean => "boolean"
  | number => "number"
  | text => "string"

end TokenKind

inductive Literal where
  | boolean (truth : Bool)
  | number (number : Float)
  | text (characters : String)
  deriving Repr

structure Token where
  kind : TokenKind
  value : Option Literal
  span : Span
  deriving Repr

namespace Token

def structural (kind : TokenKind) (position : Position) : Token :=
  ⟨kind, none, .point position⟩

def text? (token : Token) : Option String :=
  match token.value with
  | some (.text characters) => some characters
  | _ => none

/-- The one symbol under which all tokens that stand for a value are found in a grammar. -/
def atom : String := "<atom>"

/-- The symbol under which a grammar has rules for the token: its own text for punctuators and
keywords, and no text at all for layout. -/
def symbol (token : Token) : String :=
  match token.kind with
  | .punctuator | .keyword => token.text?.getD ""
  | .identifier | .boolean | .number | .text => atom
  | .newline | .indent | .dedent | .endOfProgram => ""

def is (token : Token) (kind : TokenKind) (characters : String) : Bool :=
  token.kind == kind && token.text? == some characters

def describe (token : Token) : String :=
  match token.kind with
  | .punctuator | .keyword | .identifier => "\"" ++ token.text?.getD "" ++ "\""
  | .text => "string \"" ++ token.text?.getD "" ++ "\""
  | .number | .boolean =>
    match token.value with
    | some (.number number) => "number " ++ Number.text number
    | some (.boolean truth) => if truth then "\"True\"" else "\"False\""
    | _ => token.kind.describe
  | _ => token.kind.describe

end Token

end TabScript
