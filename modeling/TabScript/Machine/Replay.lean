import TabScript.Value.Basic

/-! The memory of a statement that waits for a call.

A statement that calls a function of the program is left and evaluated again from its start when the
function has returned. Every expression takes a slot when its evaluation begins, and fills it when
it is done; the second time, filled slots answer at once. The slot of the call itself is filled with
what the function returned. -/

set_option autoImplicit false

namespace TabScript

structure Evaluated where
  value : Value
  stop : Nat

/-- The slots taken so far, the slot to be taken next, and the slot of the call that the
statement waits for with the slot behind those of its parts. -/
structure Replay where
  slots : Array (Option Evaluated)
  cursor : Nat
  waiting : Option (Nat × Nat)
  resumed : Bool

inductive Taken where
  | replayed (value : Value)
  | fresh (slot : Nat)

namespace Replay

def fresh : Replay := ⟨#[], 0, none, false⟩

instance : Inhabited Replay := ⟨fresh⟩

/-- Takes the next slot. A filled slot passes over the slots of the parts too. -/
def take (replay : Replay) : Taken × Replay :=
  match replay.slots[replay.cursor]? with
  | some (some done) => (.replayed done.value, { replay with cursor := done.stop })
  | some none => (.fresh replay.cursor, { replay with cursor := replay.cursor + 1 })
  | none =>
    (.fresh replay.cursor,
      { replay with slots := replay.slots.push none, cursor := replay.cursor + 1 })

/-- Fills a slot; the cursor stands behind the parts of its expression. -/
def fill (replay : Replay) (slot : Nat) (value : Value) : Replay :=
  { replay with slots := replay.slots.setIfInBounds slot (some ⟨value, replay.cursor⟩) }

/-- Notes the slot of the call that is waited for. Only the innermost expression, which is left
first, is the call. -/
def suspend (replay : Replay) (slot : Nat) : Replay :=
  match replay.waiting with
  | none => { replay with waiting := some (slot, replay.cursor) }
  | some _ => replay

def deliver (replay : Replay) (value : Value) : Replay :=
  match replay.waiting with
  | some (slot, stop) =>
    if slot < replay.slots.size then
      { replay with
        slots := replay.slots.setIfInBounds slot (some ⟨value, stop⟩)
        waiting := none
        resumed := true }
    else
      { replay with waiting := none }
  | none => replay

def rewind (replay : Replay) : Replay := { replay with cursor := 0 }

def values (replay : Replay) : List Value :=
  replay.slots.toList.filterMap fun slot => slot.map Evaluated.value

end Replay

end TabScript
