import TabScript.Diagnostic.Operation
import TabScript.Text.Quoted
import TabScript.Token.Basic

/-! Why a program cannot be read, or fails. The kind and the wording of each problem are settled
here, once. -/

set_option autoImplicit false

namespace TabScript

inductive Expectation where
  | punctuator (text : String)
  | token (kind : TokenKind)
  | index
  | endOfLine

def Expectation.describe : Expectation → String
  | punctuator text => "\"" ++ text ++ "\""
  | token kind => kind.describe
  | index => "an index"
  | endOfLine => "end of line"

inductive Cause where
  -- Characters
  | unexpectedCharacter (character : Char)
  | digitExpected
  | unterminatedText
  | controlInText
  | endInsideText
  -- Indentation
  | strayIndentation
  | indentedFirstLine
  | tooMuchIndentation
  | unmatchedIndentation
  -- Order of tokens
  | unexpectedToken (found : Token) (expected : Option Expectation) (previous : Option Token)
  | unexpectedEnd (expected : Option Expectation)
  | unassignable
  | undeletable
  | duplicateParameter (name : String)
  | endlessRule
  -- Execution
  | undefinedVariable (name : String)
  | operation (fault : OperationFault)
  | notCondition (found : ValueKind)
  | notFunction (name : String)
  | wrongArgumentCount (name : String) (wanted found : Nat)
  | returnOutsideFunction
  | statementAsValue
  | unassignableTarget
  | undeletableTarget
  | timeout
  -- Host
  | hostFailure (message : String)
  | unusableAnswer (name : String)
  | unusableGlobal (name : String)

namespace Cause

def kind : Cause → ProblemKind
  | unexpectedCharacter _ | digitExpected | unterminatedText | controlInText => .unexpectedCharacter
  | endInsideText | unexpectedEnd _ => .unexpectedEnd
  | strayIndentation | indentedFirstLine | tooMuchIndentation | unmatchedIndentation =>
    .badIndentation
  | unexpectedToken .. | unassignable | undeletable | duplicateParameter _ | endlessRule =>
    .unexpectedToken
  | undefinedVariable _ => .undefinedVariable
  | operation fault => fault.kind
  | notCondition _ | notFunction _ | wrongArgumentCount .. => .typeViolation
  | returnOutsideFunction | statementAsValue | unassignableTarget | undeletableTarget =>
    .illegalStatement
  | timeout => .executionTimeout
  | hostFailure _ | unusableAnswer _ | unusableGlobal _ => .unknown

def expectation : Option Expectation → String
  | none => ""
  | some expected => ". Expected " ++ expected.describe

def context : Option Token → String
  | none => ""
  | some token => if token.value.isSome then " after " ++ token.describe else ""

def objectRefused : String := "objects cannot be passed into programs"

def message : Cause → String
  | unexpectedCharacter character => s!"Unexpected character \"{Text.named character}\""
  | digitExpected => "Expected a digit"
  | unterminatedText => "Unterminated string; strings must be closed on the line they start"
  | controlInText => "Control character in string"
  | endInsideText => "Unexpected end of program inside a string"
  | strayIndentation => "Bad indentation; indent can only be composed of tab characters"
  | indentedFirstLine => "First line cannot be indented"
  | tooMuchIndentation => "Too much indentation"
  | unmatchedIndentation => "Indentation does not match any enclosing block"
  | unexpectedToken found expected previous =>
    s!"Unexpected {found.describe}{expectation expected}{context previous}"
  | unexpectedEnd expected => s!"Unexpected end of program{expectation expected}"
  | unassignable => "Unexpected \"=\". Only variables and subscripts can be assigned to"
  | undeletable => "Only array elements and slices can be deleted"
  | duplicateParameter name => s!"Duplicate parameter \"{name}\""
  | endlessRule => "Grammar rule applies without end"
  | undefinedVariable name => s!"No variable with identifier \"{name}\""
  | operation fault => fault.message
  | notCondition found => s!"Expected a boolean but found {found.describe}"
  | notFunction name => s!"\"{name}\" is not a function"
  | wrongArgumentCount name wanted found =>
    let plural := if wanted = 1 then "" else "s"
    s!"Function \"{name}\" expects {wanted} argument{plural} but got {found}"
  | returnOutsideFunction => "Return statements are only allowed inside functions"
  | statementAsValue => "Statements cannot be used as values"
  | unassignableTarget => "Illegal left-hand side of assignment"
  | undeletableTarget => "Only array elements can be deleted"
  | timeout => "Program execution took too long, check for infinite loops"
  | hostFailure message => message
  | unusableAnswer name => s!"\"{name}\" returned an unusable value: {objectRefused}"
  | unusableGlobal name => s!"Global \"{name}\" cannot be used: {objectRefused}"

end Cause

structure Fault where
  cause : Cause
  span : Span

def Fault.diagnostic (fault : Fault) : Diagnostic :=
  ⟨fault.cause.kind, fault.cause.message, fault.span⟩

end TabScript
