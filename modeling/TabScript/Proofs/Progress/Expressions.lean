import TabScript.Proofs.Progress.Settling

/-! The readers of expressions go forward and come to their ends.

A rule is only looked up under the symbol of the next token, and no rule has the symbol of the end of the
program. So an expression begins with a token that is read, and so does everything that is joined to it. -/

set_option autoImplicit false

namespace TabScript

/-- No rule for expressions is found without a text. -/
structure Grammar.Named (grammar : Grammar) : Prop where
  leading : grammar.leading? "" = none
  trailing : grammar.trailing? "" = none

theorem Grammar.named_standard : standard.Named := ⟨by decide, by decide⟩

variable {grammar : Grammar}

namespace Grammar.Named

variable (named : grammar.Named) {token : Token}
include named

theorem more_of_leading {rule : LeadingRule} (known : grammar.leading? token.symbol = some rule) :
    token.kind ≠ .endOfProgram := by
  intro ending
  rw [Token.symbol_of_ending ending, named.leading] at known
  cases known

theorem more_of_trailing {rule : TrailingRule} (known : grammar.trailing? token.symbol = some rule) :
    token.kind ≠ .endOfProgram := by
  intro ending
  rw [Token.symbol_of_ending ending, named.trailing] at known
  cases known

end Grammar.Named

namespace Parser

theorem notOperator_ne_endlessRule (token : Token) : (notOperator token).cause ≠ .endlessRule := by
  simp [notOperator]

mutual

theorem settles_expression (named : grammar.Named) : ∀ budget extra least room : Nat,
    Settles Wherever (5 * room + 1 ≤ budget) room (expression grammar budget least)
      (expression grammar (budget + extra) least) True
  | 0, _, _, _ => settles_exhausted (by omega)
  | budget + 1, extra, least, room => by
    rw [Nat.add_right_comm, expression, expression]
    refine Settles.peek fun token => ?_
    cases known : grammar.leading? token.symbol with
    | none => exact settles_unexpected _
    | some rule =>
      refine (settles_next fun cursor _ seen => ?_).bind_strict fun first => ?_
      · rw [seen]
        exact named.more_of_leading known
      · refine ((settles_leading named budget extra rule first (room - 1)).of (Nat.le_refl _) (by omega)
          id).bind fun left => ?_
        exact (settles_trailing named budget extra least left (room - 1)).of (Nat.le_refl _) (by omega) id

theorem settles_leading (named : grammar.Named) : ∀ (budget extra : Nat) (rule : LeadingRule)
    (token : Token) (room : Nat),
    Settles Wherever (5 * room + 3 ≤ budget) room (leading grammar budget rule token)
      (leading grammar (budget + extra) rule token) False
  | 0, _, _, _, _ => settles_exhausted (by omega)
  | budget + 1, extra, rule, token, room => by
    rw [Nat.add_right_comm]
    cases rule with
    | atom => exact settles_pure _
    | noneLiteral => exact settles_pure _
    | group =>
      rw [leading, leading]
      refine ((settles_expression named budget extra _ room).of (Nat.le_refl _) (by omega)
        id).bind fun inner => ?_
      exact (settles_punctuator ")").bind fun close => settles_pure _
    | array =>
      rw [leading, leading]
      refine ((settles_sequence named budget extra "]" [] room).of (Nat.le_refl _) (by omega)
        id).bind fun found => ?_
      exact settles_pure _
    | unary precedence =>
      rw [leading, leading]
      cases Operator.unary? token.symbol with
      | none => exact settles_fail (notOperator_ne_endlessRule token)
      | some operator =>
        refine ((settles_expression named budget extra _ room).of (Nat.le_refl _) (by omega)
          id).bind fun operand => ?_
        exact settles_pure _

theorem settles_trailing (named : grammar.Named) : ∀ (budget extra least : Nat) (left : Node) (room : Nat),
    Settles Wherever (5 * room + 1 ≤ budget) room (trailing grammar budget least left)
      (trailing grammar (budget + extra) least left) False
  | 0, _, _, _, _ => settles_exhausted (by omega)
  | budget + 1, extra, least, left, room => by
    rw [Nat.add_right_comm, trailing, trailing]
    refine Settles.peek fun token => ?_
    cases known : grammar.trailing? token.symbol with
    | none => exact settles_pure _
    | some rule =>
      dsimp only
      split
      · refine (settles_next fun cursor _ seen => ?_).bind_strict fun mark => ?_
        · rw [seen]
          exact named.more_of_trailing known
        · refine ((settles_join named budget extra rule left mark (room - 1)).of (Nat.le_refl _) (by omega)
            id).bind fun joined => ?_
          exact (settles_trailing named budget extra least joined (room - 1)).of (Nat.le_refl _) (by omega) id
      · exact settles_pure _

theorem settles_join (named : grammar.Named) : ∀ (budget extra : Nat) (rule : TrailingRule)
    (left : Node) (token : Token) (room : Nat),
    Settles Wherever (5 * room + 3 ≤ budget) room (join grammar budget rule left token)
      (join grammar (budget + extra) rule left token) False
  | 0, _, _, _, _, _ => settles_exhausted (by omega)
  | budget + 1, extra, rule, left, token, room => by
    have operand : ∀ least, Settles Wherever (5 * room + 3 ≤ budget + 1) room
        (expression grammar budget least) (expression grammar (budget + extra) least) False :=
      fun least => (settles_expression named budget extra least room).of (Nat.le_refl _) (by omega)
        fun _ => trivial
    rw [Nat.add_right_comm, join, join]
    cases rule.form with
    | binary =>
      dsimp only
      cases Operator.binary? token.symbol with
      | none => exact settles_fail (notOperator_ne_endlessRule token)
      | some operator => exact (operand _).bind fun right => settles_pure _
    | assign =>
      dsimp only
      split
      · exact (operand _).bind fun value => settles_pure _
      · exact settles_fail (by simp)
    | call =>
      refine ((settles_sequence named budget extra ")" [] room).of (Nat.le_refl _) (by omega)
        id).bind fun found => ?_
      exact settles_pure _
    | subscript =>
      -- an empty subscript is refused before anything of it is read
      refine Settles.look (fun cursor => cursor.peek.is .punctuator "]") (fun _ => rfl)
        fun empty => ?_
      cases empty with
      | true => exact settles_refused fun cursor => ⟨_, rfl, unexpected_ne_endlessRule cursor _⟩
      | false =>
        refine Settles.of (?_ : Settles Wherever _ room _ _ False) (Nat.le_refl _) id id
        refine (operand _).bind fun start => ?_
        refine (settles_punctuator? ":").bind fun colon => ?_
        cases colon with
        | some _ =>
          exact (operand _).bind fun stop => (settles_punctuator "]").bind fun close => settles_pure _
        | none => exact (settles_punctuator "]").bind fun close => settles_pure _

theorem settles_sequence (named : grammar.Named) : ∀ (budget extra : Nat) (close : String)
    (read : List Node) (room : Nat),
    Settles Wherever (5 * room + 2 ≤ budget) room (sequence grammar budget close read)
      (sequence grammar (budget + extra) close read) False
  | 0, _, _, _, _ => settles_exhausted (by omega)
  | budget + 1, extra, close, read, room => by
    rw [Nat.add_right_comm, sequence, sequence]
    refine (settles_punctuator? close).bind fun found => ?_
    cases found with
    | some token => exact settles_pure _
    | none =>
      refine ((settles_expression named budget extra _ room).of (Nat.le_refl _) (by omega)
        id).bind_strict fun item => ?_
      refine (settles_punctuator? ",").bind fun comma => ?_
      cases comma with
      | some _ =>
        exact (settles_sequence named budget extra close (item :: read) (room - 1)).of (Nat.le_refl _)
          (by omega) id
      | none => exact (settles_punctuator close).bind fun token => settles_pure _

end

end Parser

end TabScript
