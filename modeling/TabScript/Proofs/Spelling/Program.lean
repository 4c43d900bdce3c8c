import TabScript.Proofs.Checks.Run
import TabScript.Proofs.Printing.RoundTrip
import TabScript.Proofs.Spelling.Statements

/-! Programs are read from all of their tokens.

A program text that is accepted is read up to its end, and what is left out on the way are the parentheses
that only group and the commas in front of what closes a list. -/

set_option autoImplicit false

namespace TabScript

open Token (Remains)

namespace Parser

theorem takes_program : Takes Outside (program .standard) fun found taken cursor =>
    Remains taken (Node.sentences found.statements) ∧ cursor.peek.kind = .endOfProgram := by
  have counted : Takes Outside (get : Parser Cursor) fun value taken cursor =>
      taken = [] ∧ value = cursor ∧ Outside cursor := takes_look fun _ => rfl
  rw [program]
  refine counted.bind fun start taken => .given ?_
  rintro rfl
  refine (takes_skipNewlines.weaken fun _ ready => ready.2).bind fun _ taken => .given ?_
  rintro rfl
  refine (takes_statements _ _ []).bind fun nodes taken => .given ?_
  rintro ⟨read, rfl, spelled⟩
  refine takes_peek.bind fun last further => .given ?_
  rintro rfl
  refine takes_pure fun cursor ready => ⟨?_, of_decide_eq_true ready.2.1⟩
  rw [List.append_nil, List.append_nil]
  exact spelled

end Parser

namespace Cursor

theorem sound_tokenize {source : String} {content : List Token} {ending : Token}
    (read : tokenize source = .ok (content ++ [ending])) (kind : ending.kind = .endOfProgram)
    (others : ∀ token ∈ content, token.kind ≠ .endOfProgram) : Sound ⟨none, content, ending⟩ := by
  constructor
  · intro token inside
    have lexed := lexed_tokenize read token (List.mem_append_left _ inside)
    exact ⟨lexed, others token inside⟩
  · exact (lined_tokenize read).1
  · exact kind

theorem Passes.whole {content taken : List Token} {ending : Token} {after : Cursor}
    (passes : Passes ⟨none, content, ending⟩ taken after) (sound : after.Sound)
    (ended : after.peek.kind = .endOfProgram) :
    content = taken ∧ after = ⟨content.getLast?, [], ending⟩ := by
  obtain ⟨previous, upcoming, last⟩ := after
  cases upcoming with
  | nil =>
    obtain rfl : content = taken := passes.upcoming.trans (List.append_nil taken)
    obtain rfl : previous = _ := passes.previous.trans (Option.or_none ..)
    obtain rfl : last = ending := passes.ending
    exact ⟨rfl, rfl⟩
  | cons token rest =>
    -- the end of the program is not among the tokens in front of it
    have other := (sound.lexed token List.mem_cons_self).2
    exact absurd ended other

end Cursor

/-- Reading loses, adds and moves nothing. The cursor ends behind the last token in front of the end of the
program, and without the parentheses that only group and the commas in front of what closes a list, the
tokens are those of the tree from left to right: every bracket that was opened is closed, and the ends of
lines and of blocks are those of statements and blocks. Nothing but parentheses and commas is left out. -/
theorem parse_spelled {source : String} {program : Block} (parsed : parse source = .ok program) :
    ∃ content ending, tokenize source = .ok (content ++ [ending]) ∧ ending.kind = .endOfProgram ∧
      (∀ token ∈ content, token.kind ≠ .endOfProgram) ∧
      Parser.program .standard (.ofTokens (content ++ [ending])) =
        .ok (program, ⟨content.getLast?, [], ending⟩) ∧
      Remains content (Node.sentences program.statements) ∧
      (Node.sentences program.statements).Sublist (content.map Token.plain) ∧
      (Node.sentences program.statements).filter (fun token => !token.isLoose) =
        (content.map Token.plain).filter (fun token => !token.isLoose) := by
  obtain ⟨tokens, read, made⟩ := except_bind_ok parsed
  obtain ⟨content, ending, rfl, kind, others⟩ := (lined_tokenize read).2
  have start := Cursor.ofTokens_ended kind others
  rw [parseTokens, start] at made
  cases reached : Parser.program .standard ⟨none, content, ending⟩ with
  | error fault =>
    rw [reached] at made
    cases made
  | ok pair =>
    obtain ⟨found, after⟩ := pair
    rw [reached] at made
    cases made
    have sound := Cursor.sound_tokenize read kind others
    obtain ⟨sound', taken, passes, spelled, ended⟩ := Parser.takes_program _ _ _ sound rfl reached
    obtain ⟨rfl, stop⟩ := passes.whole sound' ended
    -- in front of the first token no operand ends and no bracket is open
    have whole : Token.essential false [] content = Node.sentences found.statements := by
      have remains := spelled [] []
      rwa [List.append_nil, Token.essential, List.append_nil] at remains
    refine ⟨content, ending, read, kind, others, ?_, spelled, ?_, ?_⟩
    · rw [start, reached, stop]
    · rw [← whole]
      exact Token.essential_sublist _ _ _
    · rw [← whole]
      exact Token.essential_filter _ _ _

def adorned : String := "def f(a, b,):\n\tif !(a):\n\t\treturn (a + b)\n\nx = [f((1), None,)]"

/-- Three pairs of parentheses and two commas leave no trace in the tree. -/
theorem parse_spelled_adorned : ∃ program content ending,
    parse adorned = .ok program ∧ tokenize adorned = .ok (content ++ [ending]) ∧ content.length = 42 ∧
      (Node.sentences program.statements).length = 34 ∧
      Remains content (Node.sentences program.statements) := by
  have made : ((parse adorned).toOption.map fun program =>
      (Node.sentences program.statements).length) = some 34 := by decide +kernel
  have counted : (tokenize adorned).toOption.map List.length = some 43 := by decide +kernel
  obtain ⟨program, parsed, spelled⟩ := Option.map_eq_some_iff.1 made
  have parsed := except_of_toOption parsed
  obtain ⟨content, ending, read, -, -, -, remains, -, -⟩ := parse_spelled parsed
  refine ⟨program, content, ending, parsed, read, ?_, spelled, remains⟩
  have length : (content ++ [ending]).length = 43 := by
    rw [read] at counted
    exact Option.some.inj counted
  rw [List.length_append] at length
  exact Nat.succ.inj length

end TabScript
