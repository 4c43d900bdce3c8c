import TabScript.Scope.Arena
import TabScript.Value.Heap

/-! Which scopes can still be reached, and the collection of the others.

A scope reaches its parent and what its bindings hold; an array reaches what its items hold; and a
function that a program defined reaches the scope it was defined in. -/

set_option autoImplicit false

namespace TabScript

inductive Item where
  | scope (id : ScopeId)
  | array (ref : ArrayRef)
  deriving DecidableEq, Repr

def Value.holds : Value → List Item
  | .array ref => [.array ref]
  | .function (.closure made) => [.scope made.scope]
  | _ => []

def Item.holds (arena : Arena) (heap : Heap) : Item → List Item
  | .scope id =>
    match arena.scope? id with
    | none => []
    | some opened =>
      opened.parent.toList.map Item.scope ++ opened.bindings.flatMap fun bound => bound.2.holds
  | .array ref => (heap.items ref).flatMap Value.holds

structure Marks where
  scopes : Array Bool
  arrays : Array Bool

namespace Marks

def empty (arena : Arena) (heap : Heap) : Marks :=
  ⟨Array.replicate arena.slots.size false, Array.replicate heap.arrays.size false⟩

def get? (marks : Marks) : Item → Option Bool
  | .scope id => marks.scopes[id.slot]?
  | .array ref => marks.arrays[ref.index]?

def set (marks : Marks) : Item → Marks
  | .scope id => { marks with scopes := marks.scopes.setIfInBounds id.slot true }
  | .array ref => { marks with arrays := marks.arrays.setIfInBounds ref.index true }

def unmarked (marks : Marks) : Nat := marks.scopes.count false + marks.arrays.count false

theorem count_setIfInBounds_lt {flags : Array Bool} {index : Nat}
    (unset : flags[index]? = some false) :
    (flags.setIfInBounds index true).count false < flags.count false := by
  obtain ⟨inside, value⟩ := Array.getElem?_eq_some_iff.1 unset
  have present : 0 < flags.count false :=
    Array.count_pos_iff.2 (value ▸ Array.getElem_mem inside)
  have fewer : (flags.setIfInBounds index true).count false = flags.count false - 1 := by
    simp [Array.setIfInBounds, inside, Array.count_set, value]
  omega

theorem unmarked_set_lt {marks : Marks} {item : Item} (unset : marks.get? item = some false) :
    (marks.set item).unmarked < marks.unmarked := by
  cases item with
  | scope id =>
    have fewer := count_setIfInBounds_lt unset
    simp only [set, unmarked]
    omega
  | array ref =>
    have fewer := count_setIfInBounds_lt unset
    simp only [set, unmarked]
    omega

end Marks

def Marks.spread (arena : Arena) (heap : Heap) (marks : Marks) (pending : List Item) : Marks :=
  match pending with
  | [] => marks
  | item :: rest =>
    match _mark : marks.get? item with
    | some false => spread arena heap (marks.set item) (item.holds arena heap ++ rest)
    | _ => spread arena heap marks rest
termination_by (marks.unmarked, pending.length)
decreasing_by
  · exact Prod.Lex.left _ _ (Marks.unmarked_set_lt _mark)
  · exact Prod.Lex.right _ (Nat.lt_succ_self _)

namespace Arena

def garbage (arena : Arena) (marks : Marks) : List Nat :=
  (List.range arena.slots.size).filter fun slot =>
    (arena.scope? ⟨slot⟩).isSome && marks.get? (.scope ⟨slot⟩) != some true

/-- Frees every scope that is reached neither from the given places and values nor from the global
scope, and counts them. -/
def collect (arena : Arena) (heap : Heap) (roots : List ScopeId) (values : List Value) :
    Nat × Arena :=
  let pending := roots.map Item.scope ++ [.scope global] ++ values.flatMap Value.holds
  let marks := (Marks.empty arena heap).spread arena heap pending
  let freed := arena.garbage marks
  let swept := freed.foldl (fun slots slot => slots.setIfInBounds slot none) arena.slots
  let survivors := swept.countP Option.isSome
  (freed.length,
    ⟨swept, freed.reverse ++ arena.free, 0, max leastThreshold (2 * survivors)⟩)

end Arena

end TabScript
