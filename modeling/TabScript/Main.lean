import TabScript.CommandLine

/-! The program itself: arguments, standard input, and the two outputs. -/

set_option autoImplicit false

namespace TabScript.CommandLine

def write (output : Output) : IO Unit := do
  IO.print output.shown
  IO.eprint output.problems

partial def proceed (options : Options) (source : String) : State → IO UInt32
  | .finished code => return UInt32.ofNat code
  | .running machine => do
    let (output, next) := advance options source machine
    write output
    proceed options source next

end TabScript.CommandLine

open TabScript.CommandLine in
def main (arguments : List String) : IO UInt32 := do
  match Options.ofArguments arguments with
  | .error message =>
    IO.eprintln message
    return 2
  | .ok options =>
    let source ← (← IO.getStdin).readToEnd
    let (output, state) := start options source
    write output
    proceed options source state
