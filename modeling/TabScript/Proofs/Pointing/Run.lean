import TabScript.Proofs.Checks.Run
import TabScript.Proofs.Limits.Foretold
import TabScript.Proofs.Pointing.Blamed
import TabScript.Proofs.Pointing.Parsed
import TabScript.Session

/-! Faults are found on the lines of the program.

Whatever runs was read from the text, so whatever fails stands there. A text that is not a program is refused
at one of its lines too, or where a block is missing at its end. -/

set_option autoImplicit false

namespace TabScript

variable {σ : Type} {source : List Char}

theorem Node.descends_sited : Node.Descends (Node.Sited source) := by
  intro node sited body among inner inside
  have found : body.Sited source := by
    cases node with
    | choice _ condition first others otherwise =>
      obtain ⟨-, -, here, further, last⟩ := sited
      rcases List.mem_cons.1 among with rfl | among
      · exact here
      rcases List.mem_append.1 among with branch | final
      · obtain ⟨other, member, rfl⟩ := List.mem_map.1 branch
        exact (Branch.areSited_iff.1 further other member).2
      · cases otherwise with
        | none => cases final
        | some block =>
          obtain rfl := List.mem_singleton.1 final
          exact last
    | loop =>
      obtain rfl := List.mem_singleton.1 among
      exact sited.2.2
    | definition =>
      obtain rfl := List.mem_singleton.1 among
      exact sited.2
    | _ => cases among
  exact Node.areSited_iff.1 found.statements inner inside

namespace Machine

variable {machine : Machine σ} {limit : Option Nat} {fault : Fault}

theorem Follows.points_turn (follows : machine.Follows (Node.Sited source))
    (fails : (machine.turn limit).result = .error fault) : fault.span.PointsInto source := by
  cases beyond : machine.exceeds limit with
  | true =>
    -- a limit is only reached in front of a statement, so the place that it points at is not made up
    rw [turn_of_exceeds beyond] at fails
    cases fails
    cases limit with
    | none => cases beyond
    | some most =>
      obtain ⟨-, -, some_⟩ := exceeds_some.1 beyond
      obtain ⟨⟨activity, node, rest⟩, next⟩ := Option.isSome_iff_exists.1 some_
      obtain ⟨-, sited, -⟩ := follows.settled.next next
      change machine.upcomingSpan.PointsInto source
      rw [(upcomingSpan_of_settled next).2]
      exact sited.span
  | false =>
    rw [turn_of_within beyond] at fails
    obtain ⟨activity, node, rest, next, ended⟩ := step_fails (running_of_fails fails) fails
    obtain ⟨-, sited, -⟩ := follows.settled.next next
    rcases ended with ended | ⟨rfl, -⟩
    · exact Evaluation.blames_exec sited _ fault ended
    · exact sited.span

theorem runSource_refused {source : String} (refused : parse source = .error fault) (globals : Globals σ)
    (hooks : List EventKind) (host : σ) (limit : Option Nat) (steps : Nat) :
    runSource source globals hooks host limit steps = some (.error fault, []) := by
  have failed : inspect source globals hooks host = .error fault := by
    rw [inspect, refused]
    rfl
  rw [runSource, failed]

end Machine

theorem parse_of_validate {source : String} {fault : Fault} (failed : validate source = .error fault) :
    parse source = .error fault := by
  unfold validate at failed
  cases parsed : parse source with
  | error other =>
    rw [parsed] at failed
    cases failed
    rfl
  | ok program =>
    rw [parsed] at failed
    cases failed

namespace Fault

variable {fault : Fault}

theorem Lost.line (lost : fault.Lost source) :
    fault.span.start.line = (Source.lines source).length + 1 ∧
      Source.line? (Source.lines source) fault.span.start.line = none := by
  have behind : fault.span.start.line = (Source.lines source).length + 1 := by
    rw [lost.place]
    exact Source.line_end lost.ended
  refine ⟨behind, ?_⟩
  rw [behind, Source.line?, if_neg (Nat.succ_ne_zero _), Nat.add_sub_cancel]
  exact List.getElem?_eq_none (Nat.le_refl _)

theorem Lost.render {source : String} (lost : fault.Lost source.toList) :
    fault.diagnostic.render source = fault.diagnostic.headline := by
  have point : fault.span.start = fault.span.stop := by
    rw [lost.place]
    rfl
  have alone : fault.diagnostic.span.start.line = fault.diagnostic.span.stop.line :=
    congrArg Position.line point
  have nowhere : Source.line? (Source.lines source.toList) fault.diagnostic.span.start.line = none :=
    lost.line.2
  rw [Diagnostic.render, Diagnostic.excerpt, if_pos alone, nowhere]
  rw [Diagnostic.headline, if_pos alone, List.append_nil, String.ofList_toList]

theorem Lost.early (lost : fault.Lost source) : fault.cause.kind.isCompileTime = true := by
  obtain ⟨closing, previous, -, same⟩ := lost.cause
  rw [same]
  rfl

theorem Read.early (read : fault.Read source) : fault.cause.kind.isCompileTime = true := by
  rcases read with sited | lost
  · exact sited.early
  · exact lost.early

theorem Read.forward (read : fault.Read source) : fault.span.start ≤ fault.span.stop := by
  rcases read with sited | lost
  · exact sited.points.forward
  · rw [lost.place]
    exact Position.le_refl _

theorem Read.headed {source : String} (read : fault.Read source.toList) :
    "Error on line".toList <+: (fault.diagnostic.render source).toList := by
  rcases read with sited | lost
  · exact sited.points.located.headed
  · rw [lost.render]
    exact fault.diagnostic.headline_headed

theorem Read.located_iff {source : String} (read : fault.Read source.toList) :
    fault.Located source ↔ ¬fault.Lost source.toList := by
  constructor
  · intro located lost
    have begins := located.begins
    rw [lost.line.2] at begins
    cases begins
  · intro found
    rcases read with sited | lost
    · exact sited.points.located
    · exact absurd lost found

end Fault

/-- A text that is not a program is refused for a reason that is known before anything runs, and whoever runs it
learns of this and of nothing else. The fault begins on a line of the text, ends no earlier, and is shown with
that line; but where a block is missing at the end of the text, in another block that the end closes, the fault
points behind the last line feed, and only its headline is shown. Whatever fails while a program runs, also
because it runs too long, begins on a line of the text, ends no earlier, and is shown with that line. -/
theorem faults_located (source : String) :
    (∀ fault, validate source = .error fault →
      fault.cause.kind.isCompileTime = true ∧
      (∀ (globals : Globals σ) hooks host limit steps,
        Machine.runSource source globals hooks host limit steps = some (.error fault, [])) ∧
      fault.span.start ≤ fault.span.stop ∧
      "Error on line".toList <+: (fault.diagnostic.render source).toList ∧
      (fault.Located source ↔ ¬fault.Lost source.toList) ∧
      (fault.Lost source.toList →
        fault.span.start.line = (Source.lines source.toList).length + 1 ∧
          fault.diagnostic.render source = fault.diagnostic.headline)) ∧
    ∀ program, parse source = .ok program →
      ∀ (machine : Machine σ) calls, machine.Reached program calls →
        ∀ limit fault, (machine.turn limit).result = .error fault → fault.Located source := by
  have verdict := read_parse source
  refine ⟨fun fault failed => ?_, fun program parsed machine calls reached limit fault fails => ?_⟩
  · have failed := parse_of_validate failed
    have read := verdict.of_error failed
    exact ⟨read.early, fun globals hooks host limit steps =>
      Machine.runSource_refused failed globals hooks host limit steps, read.forward, read.headed,
      read.located_iff, fun lost => ⟨lost.line.1, lost.render⟩⟩
  · have sited := Node.areSited_iff.1 (verdict.of_ok parsed)
    exact (reached.follows Node.descends_sited sited).points_turn fails |>.located

def told {α : Type} (source : String) : Except Fault α → Option (Span × String)
  | .ok _ => none
  | .error fault => some (fault.span, fault.diagnostic.render source)

theorem fails_of_told {α : Type} {source : String} {result : Except Fault α} {span : Span}
    {shown : String} (seen : told source result = some (span, shown)) :
    ∃ fault, result = .error fault ∧ fault.span = span ∧ fault.diagnostic.render source = shown := by
  cases result with
  | ok value => cases seen
  | error fault =>
    cases seen
    exact ⟨fault, rfl, rfl, rfl⟩

/-- A bracket that is not closed, a name that is not bound, and a program that may not run at all. -/
theorem faults_located_each :
    ∃ (refused failing late : Fault) (program : Block) (machine : Machine Unit),
      validate "x = (1" = .error refused ∧ ¬refused.Lost "x = (1".toList ∧
      refused.cause.kind.isCompileTime = true ∧ refused.Located "x = (1" ∧
      parse "print(x)" = .ok program ∧ Machine.ofProgram program [] () = .ok machine ∧
      (machine.turn none).result = .error failing ∧ failing.Located "print(x)" ∧
      (machine.turn (some 0)).result = .error late ∧ late.Located "print(x)" := by
  have unclosed : told "x = (1" (validate "x = (1") = some (⟨⟨1, 6⟩, ⟨1, 6⟩⟩,
      "Error on line 1: Unexpected end of line. Expected \")\" after number 1\nx = (1\n      ^\n") := by
    decide +kernel
  have runs : ((parse "print(x)").toOption.bind fun program =>
      (Machine.ofProgram program ([] : Globals Unit) ()).toOption.map fun machine =>
        (told "print(x)" (machine.turn none).result,
          told "print(x)" (machine.turn (some 0)).result)) =
      some (some (⟨⟨1, 6⟩, ⟨1, 7⟩⟩,
          "Error on line 1: No variable with identifier \"x\"\nprint(x)\n      ^\n"),
        some (⟨⟨1, 0⟩, ⟨1, 8⟩⟩, "Error on line 1: Program execution took too long, " ++
          "check for infinite loops\nprint(x)\n^^^^^^^^\n")) := by
    decide +kernel
  obtain ⟨refused, open_, -, -⟩ := fails_of_told unclosed
  obtain ⟨program, parsed, made⟩ := Option.bind_eq_some_iff.1 runs
  obtain ⟨machine, ready, facts⟩ := Option.map_eq_some_iff.1 made
  simp only [Prod.mk.injEq] at facts
  obtain ⟨failing, fails, -, -⟩ := fails_of_told facts.1
  obtain ⟨late, times, -, -⟩ := fails_of_told facts.2
  have parsed := except_of_toOption parsed
  have ready := except_of_toOption ready
  have kept : ¬refused.Lost "x = (1".toList := fun lost => absurd lost.ended (by decide)
  obtain ⟨early, -, -, -, located, -⟩ := (faults_located (σ := Unit) "x = (1").1 refused open_
  obtain ⟨-, stands⟩ := faults_located "print(x)"
  have start : machine.Reached program [] := .start ready
  exact ⟨refused, failing, late, program, machine, open_, kept, early, located.2 kept, parsed, ready, fails,
    stands program parsed machine [] start none failing fails, times,
    stands program parsed machine [] start (some 0) late times⟩

/-- The block that is missing here is asked for behind the last line. -/
theorem fault_lost_behind :
    ∃ fault, validate "if x:\n\twhile y:\n" = .error fault ∧
      (Source.lines "if x:\n\twhile y:\n".toList).length = 2 ∧ fault.span = ⟨⟨3, 0⟩, ⟨3, 0⟩⟩ ∧
      fault.diagnostic.render "if x:\n\twhile y:\n" =
        "Error on line 3: Unexpected end of indentation. Expected new line and indentation\n" ∧
      ¬fault.Located "if x:\n\twhile y:\n" := by
  have seen : told "if x:\n\twhile y:\n" (validate "if x:\n\twhile y:\n") =
      some (⟨⟨3, 0⟩, ⟨3, 0⟩⟩,
        "Error on line 3: Unexpected end of indentation. Expected new line and indentation\n") := by
    decide +kernel
  obtain ⟨fault, failed, place, shown⟩ := fails_of_told seen
  refine ⟨fault, failed, by decide, place, shown, fun located => ?_⟩
  have begins := located.begins
  rw [place] at begins
  exact absurd begins (by decide)

end TabScript
