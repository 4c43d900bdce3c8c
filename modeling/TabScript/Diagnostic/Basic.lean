import TabScript.Source.Span

/-! What is reported about a program that cannot be read or that fails. -/

set_option autoImplicit false

namespace TabScript

inductive ProblemKind where
  | unknown
  | unexpectedCharacter
  | unexpectedToken
  | unexpectedEnd
  | badIndentation
  | undefinedVariable
  | typeViolation
  | executionTimeout
  | unknownOperation
  | outOfBounds
  | divideByZero
  | illegalStatement
  deriving DecidableEq, Repr

namespace ProblemKind

def name : ProblemKind → String
  | unknown => "UNKNOWN"
  | unexpectedCharacter => "UNEXPECTED_CHARACTER"
  | unexpectedToken => "UNEXPECTED_TOKEN"
  | unexpectedEnd => "UNEXPECTED_EOF"
  | badIndentation => "BAD_INDENTATION"
  | undefinedVariable => "UNDEFINED_VARIABLE"
  | typeViolation => "TYPE_VIOLATION"
  | executionTimeout => "EXECUTION_TIMEOUT"
  | unknownOperation => "UNKNOWN_OPERATION"
  | outOfBounds => "OUT_OF_BOUNDS"
  | divideByZero => "DIVIDE_BY_ZERO"
  | illegalStatement => "ILLEGAL_STATEMENT"

def isCompileTime : ProblemKind → Bool
  | unexpectedCharacter | unexpectedToken | unexpectedEnd | badIndentation => true
  | _ => false

end ProblemKind

structure Diagnostic where
  kind : ProblemKind
  message : String
  span : Span
  deriving DecidableEq, Repr

def Diagnostic.summary (diagnostic : Diagnostic) : String :=
  s!"{diagnostic.kind.name} on line {diagnostic.span.start.line}: {diagnostic.message}"

end TabScript
