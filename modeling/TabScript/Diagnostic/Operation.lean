import TabScript.Diagnostic.Basic
import TabScript.Grammar.Operator
import TabScript.Number.Text
import TabScript.Value.Kind

/-! Failures of operations on values.

Such a failure has no place in the text of its own. It names the part of the operation that is to
blame, and whoever carries out the operation knows where that part stands. -/

set_option autoImplicit false

namespace TabScript

inductive Culprit where
  | operator
  | operand
  | target
  | sliceStart
  | sliceStop
  deriving DecidableEq, Repr

inductive Wanted where
  | value (kind : ValueKind)
  | sequence
  | integerIndex
  deriving DecidableEq, Repr

def Wanted.describe : Wanted → String
  | value kind => kind.describe
  | sequence => "a string or an array"
  | integerIndex => "an integer index"

inductive OperationFault where
  | mismatch (wanted : Wanted) (found : ValueKind) (culprit : Culprit)
  | unknownOperator (operator : Operator) (kind : ValueKind)
  | zeroDivisor
  | zeroModulus
  | outOfBounds (index : Int) (length : Nat) (culprit : Culprit)
  deriving DecidableEq, Repr

namespace OperationFault

def kind : OperationFault → ProblemKind
  | mismatch .. => .typeViolation
  | unknownOperator .. => .unknownOperation
  | zeroDivisor | zeroModulus => .divideByZero
  | outOfBounds .. => .outOfBounds

def culprit : OperationFault → Culprit
  | mismatch _ _ culprit => culprit
  | unknownOperator .. => .operator
  | zeroDivisor | zeroModulus => .operand
  | outOfBounds _ _ culprit => culprit

def message : OperationFault → String
  | mismatch wanted found _ => s!"Expected {wanted.describe} but found {found.describe}"
  | unknownOperator operator kind =>
    s!"Operator \"{operator.symbol}\" cannot be used on {kind.name}"
  | zeroDivisor => "Cannot divide by zero"
  | zeroModulus => "Cannot take a modulo by zero"
  | outOfBounds index length _ =>
    s!"Index {Number.text (Number.ofInt index)} is out of bounds for length {length}"

end OperationFault

end TabScript
