import TabScript.Diagnostic.Operation
import TabScript.Value.Basic

/-! Indices and slice bounds: negative ones count from the end. -/

set_option autoImplicit false

namespace TabScript.Value

def saturate (whole : Int) : Int :=
  max (-9223372036854775808) (min 9223372036854775807 whole)

def integer (culprit : Culprit) (index : Value) : Except OperationFault Int :=
  match index with
  | number value =>
    match Number.toInt? value with
    | some whole => .ok (saturate whole)
    | Option.none => .error (.mismatch .integerIndex .number culprit)
  | other => .error (.mismatch .integerIndex other.kind culprit)

def resolve (position : Int) (length : Nat) : Int :=
  if position < 0 then position + length else position

def elementPosition (index : Value) (length : Nat) : Except OperationFault Nat := do
  let position ← integer .operand index
  let resolved := resolve position length
  if resolved < 0 ∨ (length : Int) ≤ resolved then
    throw (.outOfBounds position length .operand)
  return resolved.toNat

def boundPosition (culprit : Culprit) (bound : Value) (length : Nat) :
    Except OperationFault Nat := do
  let position ← integer culprit bound
  let resolved := resolve position length
  if resolved < 0 ∨ (length : Int) < resolved then
    throw (.outOfBounds position length culprit)
  return resolved.toNat

/-- The places of both ends of a slice. An end before the start selects nothing. -/
def sliceRange (start stop : Value) (length : Nat) : Except OperationFault (Nat × Nat) := do
  let first ← boundPosition .sliceStart start length
  let last ← boundPosition .sliceStop stop length
  return (first, max first last)

def cut {α : Type} (elements : List α) (start stop : Nat) : List α :=
  (elements.take stop).drop start

def splice {α : Type} (elements : List α) (start stop : Nat) (replacement : List α) : List α :=
  elements.take start ++ replacement ++ elements.drop stop

end TabScript.Value
