import TabScript.Scope.Snapshot

/-! What a host is told while a program runs. -/

set_option autoImplicit false

namespace TabScript

inductive EventKind where
  | load
  | print
  | assign
  | exit
  deriving DecidableEq, Repr

namespace EventKind

def name : EventKind → String
  | load => "load"
  | print => "print"
  | assign => "assign"
  | exit => "exit"

def title : EventKind → String
  | load => "Load"
  | print => "Print"
  | assign => "Assign"
  | exit => "Exit"

/-- The kind with a name. `scope` is another name for assignments. -/
def ofName? : String → Option EventKind
  | "load" => some load
  | "print" => some print
  | "assign" => some assign
  | "scope" => some assign
  | "exit" => some exit
  | _ => none

def unknownName (name : String) : String := s!"unknown event \"{name}\""

end EventKind

inductive Event where
  | load
  | print (text : String) (values : List Json)
  | assign (name : Option String) (value : Json) (scope : Snapshot)
  | exit (scope : Snapshot)

def Event.kind : Event → EventKind
  | load => .load
  | print .. => .print
  | assign .. => .assign
  | exit _ => .exit

structure HostCall where
  name : String
  arguments : List Json

/-- Everything that a host notices of a run: calls of its functions, and events handed to the
hooks that it registered, known by their order. -/
inductive Observation where
  | called (call : HostCall)
  | delivered (hook : Nat) (event : Event)

def Event.deliver (hooks : List EventKind) (event : Event) : List Observation :=
  hooks.zipIdx.filterMap fun hook =>
    if hook.1 = event.kind then some (.delivered hook.2 event) else none

end TabScript
