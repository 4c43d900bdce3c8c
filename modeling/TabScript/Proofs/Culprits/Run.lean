import TabScript.Proofs.Checks.Run
import TabScript.Proofs.Culprits.Traced
import TabScript.Proofs.Pointing.Run

/-! What a failing step is blamed on.

A part of a statement that is to blame stands inside of it, because the stretches of a tree that was read are nested.
What runs was read, so the table of failures and the nesting hold together for every step of a run. -/

set_option autoImplicit false

namespace TabScript

variable {σ : Type}

/-- The stretch lies inside the other. -/
def Span.Within (inner outer : Span) : Prop := outer.start ≤ inner.start ∧ inner.stop ≤ outer.stop

namespace Span.Within

variable {inner middle outer : Span}

theorem refl (span : Span) : span.Within span := ⟨Position.le_refl _, Position.le_refl _⟩

theorem trans (first : inner.Within middle) (second : middle.Within outer) : inner.Within outer :=
  ⟨Position.le_trans second.1 first.1, Position.le_trans first.2 second.2⟩

end Span.Within

namespace Node

variable {node part : Node}

theorem span_mem_pieces (inside : part ∈ node.operands) : part.span ∈ node.pieces := by
  cases node with
  | literal | identifier | pass | definition => cases inside
  | unary => exact List.mem_cons_of_mem _ (List.mem_map_of_mem inside)
  | binary =>
    rcases List.mem_cons.1 inside with rfl | inside
    · exact List.mem_cons_self
    · exact List.mem_cons_of_mem _ (List.mem_cons_of_mem _ (List.mem_map_of_mem inside))
  | call | array | element | slice | assignment | deletion => exact List.mem_map_of_mem inside
  | result _ value =>
    cases value with
    | none => cases inside
    | some value =>
      rw [List.mem_singleton.1 inside]
      exact List.mem_cons_self
  | choice _ condition body others otherwise =>
    rcases List.mem_cons.1 inside with rfl | inside
    · exact List.mem_cons_self
    · obtain ⟨branch, among, rfl⟩ := List.mem_map.1 inside
      refine List.mem_cons_of_mem _ (List.mem_cons_of_mem _ (List.mem_append_left _ ?_))
      exact List.mem_flatMap.2 ⟨branch, among, List.mem_cons_self⟩
  | loop =>
    rw [List.mem_singleton.1 inside]
    exact List.mem_cons_self

theorem mem_operands_of_conditions (inside : part ∈ node.conditions) : part ∈ node.operands := by
  cases node with
  | choice | loop => exact inside
  | _ => cases inside

theorem Nested.piece (nested : node.Nested) {piece : Span} (inside : piece ∈ node.pieces) :
    piece.Within node.span := by
  obtain ⟨holds, -, -, -⟩ := nested
  exact holds.within piece inside

theorem Nested.operand (nested : node.Nested) (inside : part ∈ node.operands) :
    part.Nested ∧ part.span.Within node.span := by
  refine ⟨?_, nested.piece (span_mem_pieces inside)⟩
  obtain ⟨-, -, operands, -⟩ := nested
  exact operands part inside

theorem Nested.evaluated (nested : node.Nested) (inside : part ∈ node.evaluated) :
    part.Nested ∧ part.span.Within node.span := by
  cases node with
  | assignment span target value =>
    rcases List.mem_cons.1 inside with rfl | inside
    · exact nested.operand (List.mem_cons_of_mem _ List.mem_cons_self)
    · obtain ⟨there, within⟩ : target.Nested ∧ target.span.Within span := nested.operand List.mem_cons_self
      exact (there.operand inside).imp_right fun further => further.trans within
  | deletion span target =>
    obtain ⟨there, within⟩ : target.Nested ∧ target.span.Within span := nested.operand List.mem_cons_self
    exact (there.operand inside).imp_right fun further => further.trans within
  | result _ value =>
    cases value with
    | none => cases inside
    | some value => exact nested.operand inside
  | choice | loop => exact nested.operand inside
  | pass | definition => cases inside
  | literal | identifier | unary | binary | call | element | slice | array =>
    rw [List.mem_singleton.1 inside]
    exact ⟨nested, .refl _⟩

theorem descends_nested : Node.Descends Node.Nested := by
  intro node nested body among inner inside
  obtain ⟨-, -, -, bodies⟩ := nested
  obtain ⟨-, -, statements⟩ := bodies body among
  exact statements inner inside

end Node

namespace Evaluation

variable {surroundings : Surroundings σ} {progress : Progress σ} {node : Node} {values : List Value} {fault : Fault}

theorem astray_among {count : Option Nat} {target span : Span} {bounds : List (Span × Value)} {cause : OperationFault}
    (astray : Value.Astray count target bounds cause span) : span ∈ target :: bounds.map Prod.fst := by
  cases astray with
  | container => exact List.mem_cons_self
  | index => exact List.mem_cons_of_mem _ List.mem_cons_self
  | start => exact List.mem_cons_of_mem _ List.mem_cons_self
  | stop => exact List.mem_cons_of_mem _ (List.mem_cons_of_mem _ List.mem_cons_self)

/-- An expression is to blame as a whole, or a stretch inside of it. -/
theorem Refuses.among (refuses : Refuses surroundings progress node values fault) :
    fault.span ∈ node.span :: node.pieces := by
  cases refuses with
  | name | arity | lengthArity | host | answer => exact List.mem_cons_self
  | unary | callee => exact List.mem_cons_of_mem _ List.mem_cons_self
  | operator | length => exact List.mem_cons_of_mem _ (List.mem_cons_of_mem _ List.mem_cons_self)
  | right => exact List.mem_cons_of_mem _ (List.mem_cons_of_mem _ (List.mem_cons_of_mem _ List.mem_cons_self))
  | element astray | slice astray => exact List.mem_cons_of_mem _ (astray_among astray)

theorem Refuses.within (refuses : Refuses surroundings progress node values fault) (nested : node.Nested) :
    fault.span.Within node.span := by
  rcases List.mem_cons.1 refuses.among with whole | piece
  · rw [whole]
    exact .refl _
  · exact nested.piece piece

theorem Stumbles.within (stumbles : Stumbles surroundings node progress fault) (nested : node.Nested) :
    fault.span.Within node.span := by
  induction stumbles with
  | here _ _ refuses => exact refuses.within nested
  | operand _ split _ _ ih =>
    obtain ⟨part, inside⟩ := nested.operand (split ▸ List.mem_append_right _ List.mem_cons_self)
    exact (ih part).trans inside

theorem Rejects.within {heap : Heap} (rejects : Rejects heap node values fault) (nested : node.Nested) :
    fault.span.Within node.span := by
  cases rejects with
  | assignElement astray | assignSlice astray =>
    obtain ⟨target, inside⟩ := nested.operand List.mem_cons_self
    exact (target.piece (astray_among astray)).trans inside
  | assigned => exact nested.piece (List.mem_cons_of_mem _ List.mem_cons_self)
  | deleteElement astray | deleteSlice astray =>
    obtain ⟨target, inside⟩ := nested.operand List.mem_cons_self
    exact (target.piece (astray_among astray)).trans inside
  | condition split =>
    have inside := split ▸ List.mem_append_right _ List.mem_cons_self
    exact (nested.operand (Node.mem_operands_of_conditions inside)).2

theorem Breaks.within (breaks : Breaks surroundings node progress fault) (nested : node.Nested) :
    fault.span.Within node.span := by
  cases breaks with
  | here _ _ _ rejects => exact rejects.within nested
  | expression split _ _ stumbles =>
    obtain ⟨part, inside⟩ := nested.evaluated (split ▸ List.mem_append_right _ List.mem_cons_self)
    exact (stumbles.within part).trans inside

end Evaluation

/-- A step of a program that was read fails inside the statement that it runs. Either an attempt at the statement
fails, and the part of it that is to blame is the one of the table: the first part that fails, for the reason that the
values of its own parts give. Or it returns a value where no call is active, and is to blame as a whole. -/
theorem step_blames {source : String} {program : Block} (parsed : parse source = .ok program) {machine : Machine σ}
    {calls : List Call} (reached : machine.Reached program calls) {fault : Fault}
    (fails : machine.step.result = .error fault) :
    ∃ activity node rest, machine.settled.next = some (activity, node, rest) ∧ fault.span.Within node.span ∧
      ((machine.attempt machine.settled.memory activity node).1 = .error (.fail fault) ∧
          Evaluation.Breaks ⟨activity.scope, machine.wants, machine.hosts⟩ node
            ⟨machine.settled.memory, activity.replay.rewind, machine.host, [], []⟩ fault ∨
        fault = ⟨.returnOutsideFunction, node.span⟩ ∧ machine.ReturnsOutside calls) := by
  have proper := areProper_parse parsed
  obtain ⟨activity, node, rest, next, ended⟩ := Machine.step_fails (Machine.running_of_fails fails) fails
  obtain ⟨-, nested, -⟩ := (reached.follows Node.descends_nested (nested_parse parsed)).settled.next next
  refine ⟨activity, node, rest, next, ?_⟩
  -- either the attempt at the statement has failed, or nobody was there to take its value
  rcases ended with ended | ⟨rfl, value, leaves⟩
  · obtain ⟨-, proper, -⟩ := (reached.lawful fun _ : True => proper).settled.next next
    have breaks := Evaluation.breaks_exec (proper trivial) ended
    exact ⟨breaks.within nested, .inl ⟨ended, breaks⟩⟩
  · exact ⟨.refl _, .inr ⟨rfl, ((reached.illegal_iff proper).1 ⟨_, fails, rfl⟩).2⟩⟩

def waiting : String := "def f():\n\treturn 1\nx = [2]\nx[(f())] = 3"

theorem step_blames_waiting : ∃ (program : Block) (machine : Machine Unit) (calls : List Call) (fault : Fault)
    (node : Node), parse waiting = .ok program ∧ machine.Reached program calls ∧
      machine.step.result = .error fault ∧ fault.span = ⟨⟨4, 2⟩, ⟨4, 7⟩⟩ ∧
      fault.diagnostic.render waiting =
        "Error on line 4: Index 1 is out of bounds for length 1\nx[(f())] = 3\n  ^^^^^\n" ∧
      fault.span.Within node.span := by
  have seen : ((parse waiting).toOption.bind fun program =>
      (Machine.ofProgram program ([] : Globals Unit) ()).toOption.bind fun machine =>
        told waiting ((((machine.turn none).machine.turn none).machine.turn none).machine.turn none).machine.step.result)
        = some (⟨⟨4, 2⟩, ⟨4, 7⟩⟩,
          "Error on line 4: Index 1 is out of bounds for length 1\nx[(f())] = 3\n  ^^^^^\n") := by
    decide +kernel
  obtain ⟨program, parsed, made⟩ := Option.bind_eq_some_iff.1 seen
  obtain ⟨machine, ready, failed⟩ := Option.bind_eq_some_iff.1 made
  have parsed := except_of_toOption parsed
  have reached := ((((Machine.Reached.start (except_of_toOption ready)).turn none).turn none).turn none).turn none
  obtain ⟨fault, fails, place, shown⟩ := fails_of_told failed
  obtain ⟨activity, node, rest, -, within, -⟩ := step_blames parsed reached fails
  exact ⟨program, _, _, fault, node, parsed, reached, fails, place, shown, within⟩

end TabScript
