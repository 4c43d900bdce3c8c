import TabScript.Diagnostic.Excerpt
import TabScript.Session

/-! The command line: a program is read, checked or run, and what it prints is shown by lines. -/

set_option autoImplicit false

namespace TabScript.CommandLine

structure Options where
  check : Bool
  step : Bool
  scope : Bool
  limit : Option Nat
  deriving DecidableEq, Repr

def Options.default : Options := ⟨false, false, false, some defaultLimit⟩

/-- Arguments seen so far: the options, and whether a limit was set and whether it was lifted. -/
private structure Reading where
  options : Options
  limited : Bool
  unlimited : Bool

private def limit? (text : String) : Option Nat :=
  let digits := match text.toList with
    | '+' :: rest => rest
    | characters => characters
  if digits.isEmpty || !digits.all Char.isDigit then none
  else
    let limit := digits.foldl (fun total digit => 10 * total + (digit.toNat - '0'.toNat)) 0
    if limit < 18446744073709551616 then some limit else none

private def withLimit (reading : Reading) (text : String) : Except String Reading :=
  match limit? text with
  | some limit =>
    .ok { reading with options := { reading.options with limit := some limit }, limited := true }
  | none => .error s!"invalid limit: {text}"

private def readAll : Reading → List String → Except String Reading
  | reading, [] => .ok reading
  | reading, "--check" :: rest =>
    readAll { reading with options := { reading.options with check := true } } rest
  | reading, "--step" :: rest =>
    readAll { reading with options := { reading.options with step := true } } rest
  | reading, "--scope" :: rest =>
    readAll { reading with options := { reading.options with scope := true } } rest
  | reading, "--unlimited" :: rest => readAll { reading with unlimited := true } rest
  | reading, ["--"] => .ok reading
  | reading, ["--", "-"] => .ok reading
  | reading, "-" :: rest => readAll reading rest
  | reading, "--max-statements" :: limit :: rest => do readAll (← withLimit reading limit) rest
  | reading, argument :: rest =>
    if argument.startsWith "--max-statements=" then do
      readAll (← withLimit reading (argument.drop "--max-statements=".length).toString) rest
    else
      .error s!"unknown argument: {argument}"

def Options.ofArguments (arguments : List String) : Except String Options := do
  let reading ← readAll ⟨.default, false, false⟩ arguments
  if reading.unlimited then
    if reading.limited then throw "a limit and no limit"
    return { reading.options with limit := none }
  return reading.options

structure Output where
  shown : String
  problems : String

inductive State where
  | running (machine : Machine Unit)
  | finished (code : Nat)

def eventText : Event → String
  | .print text _ => text ++ "\n"
  | .exit scope => scope.toJson.pretty 0 ++ "\n"
  | _ => ""

def observationText : Observation → String
  | .delivered _ event => eventText event
  | .called _ => ""

def shownText (observed : List Observation) : String :=
  String.join (observed.map observationText)

def stepText (info : StepInfo) : String :=
  s!"{info.tag.name} {info.span.start.text}-{info.span.stop.text}\n"

def Options.hooks (options : Options) : List EventKind :=
  if options.scope then [.print, .exit] else [.print]

def failed (source shown : String) (fault : Fault) : Output × State :=
  (⟨shown, fault.diagnostic.render source⟩, .finished 1)

def start (options : Options) (source : String) : Output × State :=
  if options.check then
    match validate source with
    | .ok () => (⟨"", ""⟩, .finished 0)
    | .error fault => failed source "" fault
  else
    match Machine.inspect source [] options.hooks () with
    | .ok (machine, observed) => (⟨shownText observed, ""⟩, .running machine)
    | .error fault => failed source "" fault

section
variable {σ : Type}

/-- One round of the loop that names every statement. It looks at the limit itself, and a run that may
not go on is handed to `complete`, which ends it in one turn. -/
def namedTurn (machine : Machine σ) (limit : Option Nat) : Reaction σ (Option StepInfo) :=
  if exceeded : machine.exceeds limit then
    let ended := (machine.complete limit 1).get (Machine.isSome_complete exceeded)
    ⟨ended.result.map fun () => none, ended.machine, ended.observed⟩
  else
    machine.step

def nameAll (machine : Machine σ) (limit : Option Nat) : Nat → Option (Reaction σ Unit × List StepInfo)
  | 0 => none
  | rounds + 1 =>
    let reaction := namedTurn machine limit
    match reaction.result with
    | .error fault => some (⟨.error fault, reaction.machine, reaction.observed⟩, [])
    | .ok none => some (⟨.ok (), reaction.machine, reaction.observed⟩, [])
    | .ok (some info) =>
      (nameAll reaction.machine limit rounds).map fun (later, infos) =>
        ({ later with observed := reaction.observed ++ later.observed }, info :: infos)

def nameSource (source : String) (globals : Globals σ) (hooks : List EventKind) (host : σ)
    (limit : Option Nat) (rounds : Nat) :
    Option ((Except Fault Unit × List Observation) × List StepInfo) :=
  match Machine.inspect source globals hooks host with
  | .error fault => some ((.error fault, []), [])
  | .ok (machine, loaded) =>
    (nameAll machine limit rounds).map fun (ended, infos) =>
      ((ended.result, loaded ++ ended.observed), infos)

end

def advance (options : Options) (source : String) (machine : Machine Unit) : Output × State :=
  let reaction :=
    if options.step then namedTurn machine options.limit else machine.turn options.limit
  let shown := shownText reaction.observed
  match reaction.result with
  | .ok (some info) =>
    (⟨shown, if options.step then stepText info else ""⟩, .running reaction.machine)
  | .ok none => (⟨shown, ""⟩, .finished 0)
  | .error fault => failed source shown fault

end TabScript.CommandLine
