import TabScript.Value.Operation

/-! What a binary operator fails for.

The left operand may not know the operator, or the right operand may be of another type than it asks for. Numbers
have one more reason: a divisor that is zero. -/

set_option autoImplicit false

namespace TabScript.Value

open Operator

inductive Declined : Operator → Value → Value → OperationFault → Prop where
  | operator {operator : Operator} {left right : Value} :
      Declined operator left right (.unknownOperator operator left.kind)
  | operand {operator : Operator} {left right : Value} {wanted : Wanted} :
      Declined operator left right (.mismatch wanted right.kind .operand)
  | divisor {first second : Float} (zero : (second == 0.0) = true) :
      Declined divide (number first) (number second) .zeroDivisor
  | modulus {first second : Float} (zero : (second == 0.0) = true) :
      Declined modulo (number first) (number second) .zeroModulus

variable {heap : Heap} {operator : Operator} {left right : Value} {fault : OperationFault}

theorem declined_none (failed : noneBinary operator right = .error fault) : Declined operator none right fault := by
  unfold noneBinary at failed
  split at failed
  · split at failed <;> cases failed
    exact .operand
  · cases failed
    exact .operator

theorem declined_boolean {left : Bool} (failed : booleanBinary left operator right = .error fault) :
    Declined operator (boolean left) right fault := by
  unfold booleanBinary at failed
  split at failed <;> cases failed
  · exact .operator
  · exact .operand

theorem declined_numbers {combine : Float → Float → Except OperationFault Computed}
    (known : numberOperation? operator = some combine) {left right : Float}
    (failed : combine left right = .error fault) : Declined operator (number left) (number right) fault := by
  cases operator with
  | divide =>
    cases known
    dsimp only at failed
    split at failed
    · rename_i zero
      cases failed
      exact .divisor zero
    · cases failed
  | modulo =>
    cases known
    dsimp only at failed
    split at failed
    · rename_i zero
      cases failed
      exact .modulus zero
    · cases failed
  | same | both | either | negate => cases known
  | add | subtract | multiply | power | equal | notEqual | less | lessEqual | greater | greaterEqual =>
    cases known
    cases failed

theorem declined_number {left : Float} (failed : numberBinary left operator right = .error fault) :
    Declined operator (number left) right fault := by
  unfold numberBinary at failed
  split at failed
  · cases failed
    exact .operator
  · rename_i known
    exact declined_numbers known failed
  · cases failed
    exact .operand

theorem declined_text {left : String} (failed : textBinary left operator right = .error fault) :
    Declined operator (text left) right fault := by
  unfold textBinary at failed
  split at failed <;> cases failed
  · exact .operator
  · exact .operand

theorem declined_array {left : ArrayRef} (failed : arrayBinary heap left operator right = .error fault) :
    Declined operator (array left) right fault := by
  unfold arrayBinary at failed
  split at failed
  · split at failed
    · split at failed <;> cases failed
    · cases failed
      exact .operand
  · cases failed
    exact .operator

theorem declined_binary (failed : binary heap operator left right = .error fault) :
    Declined operator left right fault := by
  unfold binary at failed
  split at failed
  · cases failed
  · cases left with
    | none => exact declined_none failed
    | boolean => exact declined_boolean failed
    | number => exact declined_number failed
    | text => exact declined_text failed
    | array => exact declined_array failed
    | function made =>
      cases failed
      exact .operator

end TabScript.Value
