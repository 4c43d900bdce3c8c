import TabScript.Proofs.Progress.Expressions

/-! The readers of statements go forward and come to their ends.

A statement reads its keyword or the first token of its expression. What it reads last may be nothing, where
a block or the program ends. -/

set_option autoImplicit false

namespace TabScript.Parser

variable {grammar : Grammar}

theorem settles_parameters : ∀ (budget extra : Nat) (read : List String) (room : Nat),
    Settles Wherever (room + 1 ≤ budget) room (parameters budget read) (parameters (budget + extra) read)
      False
  | 0, _, _, _ => settles_exhausted (by omega)
  | budget + 1, extra, read, room => by
    rw [Nat.add_right_comm, parameters, parameters]
    refine Settles.look (fun cursor => cursor.peek.is .punctuator ")") (fun _ => rfl)
      fun closed => ?_
    cases closed with
    | true => exact settles_pure _
    | false =>
      refine Settles.of (?_ : Settles Wherever _ room _ _ False) (Nat.le_refl _) id id
      refine (settles_token (by decide)).bind_strict fun parameter => ?_
      dsimp only
      split
      · exact settles_refused fun cursor => ⟨_, rfl, by simp⟩
      · refine (settles_punctuator? ",").bind fun comma => ?_
        cases comma with
        | some _ =>
          exact (settles_parameters budget extra _ (room - 1)).of (Nat.le_refl _) (by omega) id
        | none => exact settles_pure _

mutual

theorem settles_statement (named : grammar.Named) : ∀ budget extra room : Nat,
    Settles Wherever (5 * room + 2 ≤ budget) room (statement grammar budget)
      (statement grammar (budget + extra)) True
  | 0, _, _ => settles_exhausted (by omega)
  | budget + 1, extra, room => by
    rw [Nat.add_right_comm, statement, statement]
    refine Settles.peek fun first => ?_
    cases known : (if first.kind = .keyword then grammar.statement? first.symbol else none) with
    | none =>
      refine ((settles_expression named budget extra _ room).of (Nat.le_refl _) (by omega)
        id).bind_strict fun node => ?_
      exact settles_endOfLine.bind fun _ => settles_pure _
    | some rule =>
      refine (settles_next fun cursor _ seen => ?_).bind_strict fun keyword => ?_
      · intro ending
        rw [seen] at ending
        simp [ending] at known
      · exact (settles_compound named budget extra rule keyword (room - 1)).of (Nat.le_refl _)
          (by omega) id

theorem settles_compound (named : grammar.Named) : ∀ (budget extra : Nat) (rule : StatementRule)
    (keyword : Token) (room : Nat),
    Settles Wherever (5 * room + 2 ≤ budget) room (compound grammar budget rule keyword)
      (compound grammar (budget + extra) rule keyword) False
  | 0, _, _, _, _ => settles_exhausted (by omega)
  | budget + 1, extra, rule, keyword, room => by
    -- operands and blocks are read by a call further in, with as much room as there is here
    have operand : ∀ least, Settles Wherever (5 * room + 2 ≤ budget + 1) room
        (expression grammar budget least) (expression grammar (budget + extra) least) False :=
      fun least => (settles_expression named budget extra least room).of (Nat.le_refl _) (by omega)
        fun _ => trivial
    have body : Settles Wherever (5 * room + 2 ≤ budget + 1) room (block grammar budget)
        (block grammar (budget + extra)) False :=
      (settles_block named budget extra room).of (Nat.le_refl _) (by omega) id
    rw [Nat.add_right_comm]
    cases rule with
    | choice =>
      rw [compound, compound]
      refine (operand _).bind fun condition => body.bind fun first => ?_
      refine ((settles_branches named budget extra [] room).of (Nat.le_refl _) (by omega)
        id).bind fun others => ?_
      refine ((settles_alternative named budget extra room).of (Nat.le_refl _) (by omega)
        id).bind fun otherwise => ?_
      exact settles_pure _
    | loop =>
      rw [compound, compound]
      exact (operand _).bind fun condition => body.bind fun block => settles_pure _
    | definition =>
      rw [compound, compound]
      refine (settles_token (by decide)).bind fun name => ?_
      refine (settles_punctuator "(").bind fun _ => ?_
      refine ((settles_parameters budget extra [] room).of (Nat.le_refl _) (by omega)
        id).bind fun names => ?_
      exact (settles_punctuator ")").bind fun _ => body.bind fun block => settles_pure _
    | result =>
      rw [compound, compound]
      refine Settles.peek fun token => ?_
      refine Settles.of (?_ : Settles Wherever _ room _ _ False) (Nat.le_refl _) id id
      have bare : Settles Wherever (5 * room + 2 ≤ budget + 1) room
          (do endOfLine; return Node.result keyword.span none)
          (do endOfLine; return Node.result keyword.span none) False :=
        settles_endOfLine.bind fun _ => settles_pure _
      cases token.kind with
      | newline => exact bare
      | dedent => exact bare
      | endOfProgram => exact bare
      | _ => exact (operand _).bind fun value => settles_endOfLine.bind fun _ => settles_pure _
    | pass =>
      rw [compound, compound]
      exact settles_endOfLine.bind fun _ => settles_pure _
    | deletion =>
      rw [compound, compound]
      refine (operand _).bind fun target => ?_
      split
      · exact settles_refused fun cursor => ⟨_, rfl, by simp⟩
      · exact settles_endOfLine.bind fun _ => settles_pure _

theorem settles_branches (named : grammar.Named) : ∀ (budget extra : Nat) (read : List Branch)
    (room : Nat),
    Settles Wherever (5 * room + 1 ≤ budget) room (branches grammar budget read)
      (branches grammar (budget + extra) read) False
  | 0, _, _, _ => settles_exhausted (by omega)
  | budget + 1, extra, read, room => by
    rw [Nat.add_right_comm, branches, branches]
    refine Settles.look (fun cursor => cursor.peek.is .keyword "elif") (fun _ => rfl)
      fun more => ?_
    cases more with
    | false => exact settles_pure _
    | true =>
      refine (settles_next fun cursor _ seen => ?_).bind_strict fun _ => ?_
      · rw [kind_of_is seen]
        decide
      · refine ((settles_expression named budget extra _ (room - 1)).of (Nat.le_refl _) (by omega)
          id).bind fun condition => ?_
        refine ((settles_block named budget extra (room - 1)).of (Nat.le_refl _) (by omega)
          id).bind fun body => ?_
        exact (settles_branches named budget extra _ (room - 1)).of (Nat.le_refl _) (by omega) id

theorem settles_alternative (named : grammar.Named) : ∀ budget extra room : Nat,
    Settles Wherever (5 * room + 1 ≤ budget) room (alternative grammar budget)
      (alternative grammar (budget + extra)) False
  | 0, _, _ => settles_exhausted (by omega)
  | budget + 1, extra, room => by
    rw [Nat.add_right_comm, alternative, alternative]
    refine Settles.look (fun cursor => cursor.peek.is .keyword "else") (fun _ => rfl)
      fun more => ?_
    cases more with
    | false => exact settles_pure _
    | true =>
      refine (settles_next fun cursor _ seen => ?_).bind_strict fun _ => ?_
      · rw [kind_of_is seen]
        decide
      · refine ((settles_block named budget extra (room - 1)).of (Nat.le_refl _) (by omega)
          id).bind fun body => ?_
        exact settles_pure _

theorem settles_block (named : grammar.Named) : ∀ budget extra room : Nat,
    Settles Wherever (5 * room + 1 ≤ budget) room (block grammar budget)
      (block grammar (budget + extra)) False
  | 0, _, _ => settles_exhausted (by omega)
  | budget + 1, extra, room => by
    rw [Nat.add_right_comm, block, block]
    refine (settles_punctuator ":").bind_strict fun _ => ?_
    refine (settles_token (by decide)).bind fun _ => ?_
    refine (settles_token (by decide)).bind fun _ => ?_
    refine settles_skipNewlines.bind fun _ => ?_
    refine ((settles_statements named budget extra _ [] (room - 1)).of (Nat.le_refl _) (by omega)
      id).bind fun inner => ?_
    exact (settles_token (by decide)).bind fun dedent => settles_pure _

theorem settles_statements (named : grammar.Named) : ∀ (budget extra : Nat) (ends : TokenKind → Bool)
    (read : List Node) (room : Nat),
    Settles Wherever (5 * room + 3 ≤ budget) room (statements grammar budget ends read)
      (statements grammar (budget + extra) ends read) False
  | 0, _, _, _, _ => settles_exhausted (by omega)
  | budget + 1, extra, ends, read, room => by
    rw [Nat.add_right_comm, statements, statements]
    refine Settles.peek fun token => ?_
    refine Settles.of (?_ : Settles Wherever _ room _ _ False) (Nat.le_refl _) id id
    split
    · exact settles_pure _
    · refine ((settles_statement named budget extra room).of (Nat.le_refl _) (by omega)
        id).bind_strict fun node => ?_
      refine settles_skipNewlines.bind fun _ => ?_
      exact (settles_statements named budget extra ends _ (room - 1)).of (Nat.le_refl _) (by omega) id

end

end TabScript.Parser
