import TabScript.Number.Remainder
import TabScript.Value.Bounds
import TabScript.Value.Equality

/-! Operators, subscripts and changes of arrays. -/

set_option autoImplicit false

namespace TabScript.Value

open Operator

def unary (operator : Operator) (operand : Value) : Except OperationFault Value :=
  match operand, operator with
  | boolean truth, negate => .ok (boolean !truth)
  | number value, add => .ok (number value)
  | number value, subtract => .ok (number (-value))
  | other, operator => .error (.unknownOperator operator other.kind)

def simply (value : Value) : Except OperationFault Computed := .ok (.value value)

def noneBinary (operator : Operator) (right : Value) : Except OperationFault Computed :=
  if operator = equal ∨ operator = notEqual then
    match right with
    | none => simply (boolean (operator = equal))
    | other => .error (.mismatch (.value .none) other.kind .operand)
  else
    .error (.unknownOperator operator .none)

def booleanOperation? : Operator → Option (Bool → Bool → Bool)
  | both => some (· && ·)
  | either => some (· || ·)
  | equal => some (· == ·)
  | notEqual => some (· != ·)
  | _ => Option.none

def booleanBinary (left : Bool) (operator : Operator) (right : Value) :
    Except OperationFault Computed :=
  match booleanOperation? operator, right with
  | Option.none, _ => .error (.unknownOperator operator .boolean)
  | some combine, boolean right => simply (boolean (combine left right))
  | some _, other => .error (.mismatch (.value .boolean) other.kind .operand)

def numberOperation? : Operator → Option (Float → Float → Except OperationFault Computed)
  | add => some fun left right => simply (number (left + right))
  | subtract => some fun left right => simply (number (left - right))
  | multiply => some fun left right => simply (number (left * right))
  | divide => some fun left right =>
    if right == 0.0 then .error .zeroDivisor else simply (number (left / right))
  | modulo => some fun left right =>
    if right == 0.0 then .error .zeroModulus else simply (number (Number.modulo left right))
  | power => some fun left right => simply (number (Float.pow left right))
  | equal => some fun left right => simply (boolean (left == right))
  | notEqual => some fun left right => simply (boolean (left != right))
  | less => some fun left right => simply (boolean (left < right))
  | lessEqual => some fun left right => simply (boolean (left ≤ right))
  | greater => some fun left right => simply (boolean (right < left))
  | greaterEqual => some fun left right => simply (boolean (right ≤ left))
  | same | both | either | negate => Option.none

def numberBinary (left : Float) (operator : Operator) (right : Value) :
    Except OperationFault Computed :=
  match numberOperation? operator, right with
  | Option.none, _ => .error (.unknownOperator operator .number)
  | some combine, number right => combine left right
  | some _, other => .error (.mismatch (.value .number) other.kind .operand)

/-- The operators on two texts. Texts are ordered by the code points of their characters. -/
def textOperation? : Operator → Option (String → String → Value)
  | add => some fun left right => text (left ++ right)
  | equal => some fun left right => boolean (left == right)
  | notEqual => some fun left right => boolean (left != right)
  | less => some fun left right => boolean (left < right)
  | lessEqual => some fun left right => boolean (left ≤ right)
  | greater => some fun left right => boolean (right < left)
  | greaterEqual => some fun left right => boolean (right ≤ left)
  | _ => Option.none

def textBinary (left : String) (operator : Operator) (right : Value) :
    Except OperationFault Computed :=
  match textOperation? operator, right with
  | Option.none, _ => .error (.unknownOperator operator .text)
  | some combine, text right => simply (combine left right)
  | some _, other => .error (.mismatch (.value .text) other.kind .operand)

def arrayBinary (heap : Heap) (left : ArrayRef) (operator : Operator) (right : Value) :
    Except OperationFault Computed :=
  if operator = add ∨ operator = equal ∨ operator = notEqual then
    match right with
    | array right =>
      match operator with
      | add => .ok (.items (heap.items left ++ heap.items right))
      | notEqual => simply (boolean !isEqual heap (array left) (array right))
      | _ => simply (boolean (isEqual heap (array left) (array right)))
    | other => .error (.mismatch (.value .array) other.kind .operand)
  else
    .error (.unknownOperator operator .array)

/-- A binary operator. Identity is defined for all values; every other operator is settled by the
type of the left operand, and an operator unknown to it is worse than a wrong right operand. -/
def binary (heap : Heap) (operator : Operator) (left right : Value) :
    Except OperationFault Computed :=
  if operator = same then
    simply (boolean (isSame heap left right))
  else
    match left with
    | none => noneBinary operator right
    | boolean left => booleanBinary left operator right
    | number left => numberBinary left operator right
    | text left => textBinary left operator right
    | array left => arrayBinary heap left operator right
    | function _ => .error (.unknownOperator operator .function)

def length (heap : Heap) : Value → Except OperationFault Nat
  | text characters => .ok characters.length
  | array ref => .ok (heap.items ref).length
  | other => .error (.mismatch .sequence other.kind .operand)

def element (heap : Heap) (target index : Value) : Except OperationFault Value :=
  match target with
  | text characters => do
    let position ← elementPosition index characters.length
    return text (String.ofList ((characters.toList.drop position).take 1))
  | array ref => do
    let items := heap.items ref
    let position ← elementPosition index items.length
    return items.getD position none
  | other => .error (.mismatch .sequence other.kind .target)

def slice (heap : Heap) (target start stop : Value) : Except OperationFault Computed :=
  match target with
  | text characters => do
    let (first, last) ← sliceRange start stop characters.length
    return .value (text (String.ofList (cut characters.toList first last)))
  | array ref => do
    let items := heap.items ref
    let (first, last) ← sliceRange start stop items.length
    return .items (cut items first last)
  | other => .error (.mismatch .sequence other.kind .target)

def changeable (target : Value) : Except OperationFault ArrayRef :=
  match target with
  | array ref => .ok ref
  | other => .error (.mismatch (.value .array) other.kind .target)

def setElement (heap : Heap) (target index value : Value) : Except OperationFault Heap := do
  let ref ← changeable target
  let items := heap.items ref
  let position ← elementPosition index items.length
  return heap.update ref (splice items position (position + 1) [value])

def setSlice (heap : Heap) (target start stop value : Value) : Except OperationFault Heap := do
  let ref ← changeable target
  let items := heap.items ref
  let (first, last) ← sliceRange start stop items.length
  match value with
  | array other => return heap.update ref (splice items first last (heap.items other))
  | other => throw (.mismatch (.value .array) other.kind .operand)

def deleteElement (heap : Heap) (target index : Value) : Except OperationFault Heap := do
  let ref ← changeable target
  let items := heap.items ref
  let position ← elementPosition index items.length
  return heap.update ref (splice items position (position + 1) [])

def deleteSlice (heap : Heap) (target start stop : Value) : Except OperationFault Heap := do
  let ref ← changeable target
  let items := heap.items ref
  let (first, last) ← sliceRange start stop items.length
  return heap.update ref (splice items first last [])

end TabScript.Value
