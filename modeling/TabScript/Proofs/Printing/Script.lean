import TabScript.Proofs.Printing.Printer

/-! The lines of a program, laid out, are the tokens of its statements. -/

set_option autoImplicit false

namespace TabScript

open Token (mark keyword name constant layout enclosed commas)

namespace Token

theorem writable_sign {symbol : String} (known : symbol ∈ signs) : (mark symbol).Writable :=
  .mark (List.mem_append_left _ known)

theorem writable_enclosed {tokens : List Token} (writable : ∀ token ∈ tokens, token.Writable)
    (needed : Bool) : ∀ token ∈ enclosed needed tokens, token.Writable := by
  cases needed with
  | false => exact writable
  | true =>
    rw [enclosed, if_pos rfl, List.forall_mem_cons, List.forall_mem_append, List.forall_mem_singleton]
    exact ⟨writable_sign (by decide), writable, writable_sign (by decide)⟩

theorem writable_commas {words : List (List Token)}
    (writable : ∀ tokens ∈ words, ∀ token ∈ tokens, token.Writable) :
    ∀ token ∈ commas words, token.Writable := by
  induction words with
  | nil => exact fun token inside => absurd inside List.not_mem_nil
  | cons tokens others ih =>
    have first := writable tokens List.mem_cons_self
    have rest := ih fun other inside => writable other (List.mem_cons_of_mem _ inside)
    cases others with
    | nil => exact first
    | cons second others =>
      rw [commas, List.forall_mem_append, List.forall_mem_cons]
      · exact ⟨first, writable_sign (by decide), rest⟩
      · exact List.cons_ne_nil _ _

end Token

open Token (writable_sign writable_enclosed writable_commas)

theorem Operator.writable (operator : Operator) : (mark operator.symbol).Writable := by
  cases operator <;> exact .mark (by decide)

mutual

theorem Node.writable_words : ∀ node : Node, node.IsExpression →
    ∀ token ∈ node.words, token.Writable
  | .literal _ none, _ => by
    rw [words, List.forall_mem_singleton]
    exact .keyword (by decide)
  | .literal _ (some value), proper => by
    rw [words, List.forall_mem_singleton]
    exact .constant proper
  | .identifier _ word, proper => by
    rw [words, List.forall_mem_singleton]
    exact .name proper
  | .unary _ operator _ operand, proper => by
    rw [IsExpression] at proper
    rw [words, List.forall_mem_cons]
    exact ⟨operator.writable, writable_enclosed (operand.writable_words proper.2) _⟩
  | .binary _ operator _ left right, proper => by
    rw [IsExpression] at proper
    rw [words, List.forall_mem_append, List.forall_mem_cons]
    exact ⟨writable_enclosed (left.writable_words proper.2.1) _, operator.writable,
      writable_enclosed (right.writable_words proper.2.2) _⟩
  | .call _ callee arguments, proper => by
    rw [IsExpression] at proper
    rw [words, List.forall_mem_append, List.forall_mem_cons, List.forall_mem_append,
      List.forall_mem_singleton]
    exact ⟨writable_enclosed (callee.writable_words proper.1) _, writable_sign (by decide),
      writable_commas (Node.writable_wordsAll arguments proper.2), writable_sign (by decide)⟩
  | .element _ target index, proper => by
    rw [IsExpression] at proper
    rw [words, List.forall_mem_append, List.forall_mem_cons, List.forall_mem_append,
      List.forall_mem_singleton]
    exact ⟨writable_enclosed (target.writable_words proper.1) _, writable_sign (by decide),
      index.writable_words proper.2, writable_sign (by decide)⟩
  | .slice _ target start stop, proper => by
    rw [IsExpression] at proper
    rw [words, List.forall_mem_append, List.forall_mem_cons, List.forall_mem_append,
      List.forall_mem_cons, List.forall_mem_append, List.forall_mem_singleton]
    exact ⟨writable_enclosed (target.writable_words proper.1) _, writable_sign (by decide),
      start.writable_words proper.2.1, writable_sign (by decide), stop.writable_words proper.2.2,
      writable_sign (by decide)⟩
  | .array _ items, proper => by
    rw [IsExpression] at proper
    rw [words, List.forall_mem_cons, List.forall_mem_append, List.forall_mem_singleton]
    exact ⟨writable_sign (by decide), writable_commas (Node.writable_wordsAll items proper),
      writable_sign (by decide)⟩
  | .assignment .., proper | .choice .., proper | .loop .., proper | .definition .., proper
  | .result .., proper | .pass _, proper | .deletion .., proper => by
    rw [IsExpression] at proper
    · exact proper.elim
    all_goals nofun

theorem Node.writable_wordsAll : ∀ nodes : List Node, Node.AreExpressions nodes →
    ∀ tokens ∈ Node.wordsAll nodes, ∀ token ∈ tokens, token.Writable
  | [], _ => fun tokens inside => absurd inside List.not_mem_nil
  | node :: nodes, proper => by
    rw [wordsAll, List.forall_mem_cons]
    exact ⟨node.writable_words proper.1, Node.writable_wordsAll nodes proper.2⟩

end

def Token.Opens (token : Token) : Prop :=
  (Grammar.standard.leading? token.symbol).isSome = true

instance (token : Token) : Decidable token.Opens := inferInstanceAs (Decidable (_ = true))

theorem Token.enclosed_cons {tokens : List Token}
    (begins : ∃ first others, tokens = first :: others ∧ first.Opens) (needed : Bool) :
    ∃ first others, enclosed needed tokens = first :: others ∧ first.Opens := by
  cases needed with
  | false => exact begins
  | true => exact ⟨mark "(", tokens ++ [mark ")"], rfl, by decide⟩

theorem Node.words_cons : ∀ node : Node, node.IsExpression →
    ∃ first others, node.words = first :: others ∧ first.Opens
  | .literal _ none, _ => ⟨_, _, rfl, by decide⟩
  | .literal _ (some value), _ => by
    refine ⟨_, _, rfl, ?_⟩
    cases value <;> exact (rfl : (Grammar.standard.leading? Token.atom).isSome = true)
  | .identifier _ word, _ => ⟨_, _, rfl, (rfl : (Grammar.standard.leading? Token.atom).isSome = true)⟩
  | .unary _ operator _ operand, proper => by
    rw [IsExpression] at proper
    refine ⟨_, _, rfl, ?_⟩
    have unary : operator.IsUnary := proper.1
    cases operator <;> first | decide | cases unary
  | .binary _ operator _ left right, proper => by
    rw [IsExpression] at proper
    obtain ⟨first, others, begins, opens⟩ :=
      Token.enclosed_cons (left.words_cons proper.2.1) (left.strength < operator.strength)
    exact ⟨first, _, by rw [words, begins, List.cons_append], opens⟩
  | .call _ callee arguments, proper => by
    rw [IsExpression] at proper
    obtain ⟨first, others, begins, opens⟩ :=
      Token.enclosed_cons (callee.words_cons proper.1) (callee.strength < Precedence.suffix)
    exact ⟨first, _, by rw [words, begins, List.cons_append], opens⟩
  | .element _ target index, proper => by
    rw [IsExpression] at proper
    obtain ⟨first, others, begins, opens⟩ :=
      Token.enclosed_cons (target.words_cons proper.1) (target.strength < Precedence.suffix)
    exact ⟨first, _, by rw [words, begins, List.cons_append], opens⟩
  | .slice _ target start stop, proper => by
    rw [IsExpression] at proper
    obtain ⟨first, others, begins, opens⟩ :=
      Token.enclosed_cons (target.words_cons proper.1) (target.strength < Precedence.suffix)
    exact ⟨first, _, by rw [words, begins, List.cons_append], opens⟩
  | .array _ items, _ => ⟨mark "[", _, rfl, by decide⟩
  | .assignment .., proper | .choice .., proper | .loop .., proper | .definition .., proper
  | .result .., proper | .pass _, proper | .deletion .., proper => by
    rw [IsExpression] at proper
    · exact proper.elim
    all_goals nofun

namespace Laid

variable {depth : Nat} {lines : List Line} {words : List Token}

theorem line (laid : Laid depth lines words) (tokens : List Token) (some_ : tokens ≠ [])
    (writable : ∀ token ∈ tokens, token.Writable) :
    Laid depth (⟨depth, tokens⟩ :: lines) (tokens ++ layout .newline :: words) := by
  have whole := @Laid.further depth ⟨depth, tokens⟩ lines words (Nat.le_refl depth)
    ⟨some_, writable⟩ laid
  rw [Nat.sub_self, List.replicate_zero, List.nil_append] at whole
  exact whole

theorem header (laid : Laid depth lines words) (word : String) (known : word ∈ Token.keywords)
    {tokens : List Token} (writable : ∀ token ∈ tokens, token.Writable) :
    Laid depth (⟨depth, keyword word :: (tokens ++ [mark ":"])⟩ :: lines)
      (keyword word :: (tokens ++ mark ":" :: layout .newline :: words)) := by
  have whole := laid.line (keyword word :: (tokens ++ [mark ":"])) (by simp) (by
    rw [List.forall_mem_cons, List.forall_mem_append, List.forall_mem_singleton]
    exact ⟨.keyword known, writable, writable_sign (by decide)⟩)
  simpa only [List.append_assoc, List.cons_append, List.nil_append] using whole

end Laid

/-- The first line of a statement stands in the block that it belongs to. -/
theorem Node.lines_cons (depth : Nat) (node : Node) :
    ∃ tokens others, node.lines depth = ⟨depth, tokens⟩ :: others := by
  cases node with
  | result span value => cases value <;> exact ⟨_, _, rfl⟩
  | choice span condition body others otherwise => cases otherwise <;> exact ⟨_, _, rfl⟩
  | _ => exact ⟨_, _, rfl⟩

theorem Node.linesAll_shallow {depth : Nat} {more : List Line} (shallow : Line.Shallow depth more)
    (nodes : List Node) : Line.Shallow depth (Node.linesAll depth nodes ++ more) := by
  cases nodes with
  | nil => exact shallow
  | cons node nodes =>
    obtain ⟨tokens, others, begins⟩ := node.lines_cons depth
    rw [linesAll, begins]
    intro line first
    cases first
    exact Nat.le_refl depth

theorem Branch.linesAll_shallow {depth : Nat} {more : List Line} (shallow : Line.Shallow depth more)
    (branches : List Branch) : Line.Shallow depth (Branch.linesAll depth branches ++ more) := by
  cases branches with
  | nil => exact shallow
  | cons branch branches =>
    obtain ⟨condition, body⟩ := branch
    rw [linesAll]
    intro line first
    cases first
    exact Nat.le_refl depth

theorem Node.laid_words {node : Node} (proper : node.IsExpression) {depth : Nat} {lines : List Line}
    {words : List Token} (laid : Laid depth lines words) :
    Laid depth (⟨depth, node.words⟩ :: lines) (node.words ++ layout .newline :: words) := by
  obtain ⟨first, others, begins, -⟩ := node.words_cons proper
  exact laid.line node.words (by simp [begins]) (node.writable_words proper)

theorem Block.script_append (block : Block) (words : List Token) :
    block.script ++ words = mark ":" :: layout .newline :: layout .indent ::
      (Node.scripts block.statements ++ layout .dedent :: words) := by
  obtain ⟨span, statements⟩ := block
  simp [Block.script, Block.statements]

mutual

theorem Node.laid : ∀ node : Node, node.IsStatement → ∀ {depth : Nat} {more : List Line}
    {words : List Token}, Line.Shallow depth more → Laid depth more words →
      Laid depth (node.lines depth ++ more) (node.script ++ words)
  | .assignment _ target value, proper, depth, more, words, shallow, laid => by
    rw [Node.IsStatement] at proper
    have line := laid.line (target.words ++ mark "=" :: value.words) (by simp) (by
      rw [List.forall_mem_append, List.forall_mem_cons]
      exact ⟨target.writable_words proper.2.1, writable_sign (by decide),
        value.writable_words proper.2.2⟩)
    rw [Node.lines, Node.script]
    simpa only [List.append_assoc, List.cons_append, List.nil_append] using line
  | .choice _ condition body others none, proper, depth, more, words, shallow, laid => by
    rw [Node.IsStatement] at proper
    have inner := body.laid proper.2.1 (Branch.linesAll_shallow shallow others)
      (Branch.laid others proper.2.2 shallow laid)
    rw [Node.lines, Node.script]
    simpa only [List.append_assoc, List.cons_append, List.nil_append, Block.script_append] using
      inner.header "if" (by decide) (condition.writable_words proper.1)
  | .choice _ condition body others (some last), proper, depth, more, words, shallow, laid => by
    rw [Node.IsStatement] at proper
    -- from the last line up: the other block, then the branches in front of it, then the body
    have ending := (last.laid proper.2.2.2 shallow laid).line [keyword "else", mark ":"] (by simp) (by
      rw [List.forall_mem_cons, List.forall_mem_singleton]
      exact ⟨.keyword (by decide), writable_sign (by decide)⟩)
    have here : Line.Shallow depth
        (⟨depth, [keyword "else", mark ":"]⟩ :: (last.lines (depth + 1) ++ more)) :=
      fun line first => by cases first; exact Nat.le_refl depth
    have inner := body.laid proper.2.1 (Branch.linesAll_shallow here others)
      (Branch.laid others proper.2.2.1 here ending)
    rw [Node.lines, Node.script]
    simpa only [List.append_assoc, List.cons_append, List.nil_append, Block.script_append] using
      inner.header "if" (by decide) (condition.writable_words proper.1)
  | .loop _ condition body, proper, depth, more, words, shallow, laid => by
    rw [Node.IsStatement] at proper
    rw [Node.lines, Node.script]
    simpa only [List.append_assoc, List.cons_append, List.nil_append, Block.script_append] using
      (body.laid proper.2 shallow laid).header "while" (by decide) (condition.writable_words proper.1)
  | .definition _ word parameters body, proper, depth, more, words, shallow, laid => by
    rw [Node.IsStatement] at proper
    have names : ∀ token ∈ commas (parameters.map fun parameter => [name parameter]),
        token.Writable := by
      refine writable_commas fun tokens inside => ?_
      obtain ⟨parameter, known, rfl⟩ := List.mem_map.1 inside
      rw [List.forall_mem_singleton]
      exact .name (proper.2.1 parameter known)
    have heading : ∀ token ∈ name word :: mark "(" ::
        (commas (parameters.map fun parameter => [name parameter]) ++ [mark ")"]),
        token.Writable := by
      rw [List.forall_mem_cons, List.forall_mem_cons, List.forall_mem_append,
        List.forall_mem_singleton]
      exact ⟨.name proper.1, writable_sign (by decide), names, writable_sign (by decide)⟩
    have header := (body.laid proper.2.2.2 shallow laid).header "def" (by decide) heading
    rw [Node.lines, Node.script]
    simpa only [List.append_assoc, List.cons_append, List.nil_append, Block.script_append] using header
  | .result _ none, proper, depth, more, words, shallow, laid =>
    laid.line [keyword "return"] (by simp) (by
      rw [List.forall_mem_singleton]
      exact .keyword (by decide))
  | .result _ (some value), proper, depth, more, words, shallow, laid => by
    rw [Node.IsStatement] at proper
    have line := laid.line (keyword "return" :: value.words) (by simp) (by
      rw [List.forall_mem_cons]
      exact ⟨.keyword (by decide), value.writable_words proper⟩)
    rw [Node.lines, Node.script]
    simpa only [List.append_assoc, List.cons_append, List.nil_append] using line
  | .pass _, proper, depth, more, words, shallow, laid =>
    laid.line [keyword "pass"] (by simp) (by
      rw [List.forall_mem_singleton]
      exact .keyword (by decide))
  | .deletion _ target, proper, depth, more, words, shallow, laid => by
    rw [Node.IsStatement] at proper
    have line := laid.line (keyword "del" :: target.words) (by simp) (by
      rw [List.forall_mem_cons]
      exact ⟨.keyword (by decide), target.writable_words proper.2⟩)
    rw [Node.lines, Node.script]
    simpa only [List.append_assoc, List.cons_append, List.nil_append] using line
  | .literal .., proper, depth, more, words, shallow, laid
  | .identifier .., proper, depth, more, words, shallow, laid
  | .unary .., proper, depth, more, words, shallow, laid
  | .binary .., proper, depth, more, words, shallow, laid
  | .call .., proper, depth, more, words, shallow, laid
  | .element .., proper, depth, more, words, shallow, laid
  | .slice .., proper, depth, more, words, shallow, laid
  | .array .., proper, depth, more, words, shallow, laid => by
    change Laid depth (⟨depth, Node.words _⟩ :: more) ((Node.words _ ++ [layout .newline]) ++ words)
    rw [List.append_assoc]
    exact Node.laid_words proper laid

theorem Node.laid_all : ∀ nodes : List Node, Node.AreStatements nodes → ∀ {depth : Nat}
    {more : List Line} {words : List Token}, Line.Shallow depth more → Laid depth more words →
      Laid depth (Node.linesAll depth nodes ++ more) (Node.scripts nodes ++ words)
  | [], _, _, _, _, _, laid => laid
  | node :: nodes, proper, depth, more, words, shallow, laid => by
    rw [Node.linesAll, Node.scripts, List.append_assoc, List.append_assoc]
    exact node.laid proper.1 (Node.linesAll_shallow shallow nodes)
      (Node.laid_all nodes proper.2 shallow laid)

theorem Block.laid : ∀ block : Block, block.IsWritten → ∀ {depth : Nat} {more : List Line}
    {words : List Token}, Line.Shallow depth more → Laid depth more words →
      Laid depth (block.lines (depth + 1) ++ more)
        (layout .indent :: (Node.scripts block.statements ++ layout .dedent :: words))
  | .of _ [], proper, _, _, _, _, _ => absurd rfl proper.1
  | .of _ (node :: nodes), proper, depth, more, words, shallow, laid => by
    have deep : Line.Shallow (depth + 1) more := fun line first =>
      Nat.le_succ_of_le (shallow line first)
    -- the line behind the block stands outside of it and closes it
    have inner := Node.laid_all (node :: nodes) proper.2 deep (laid.close shallow)
    obtain ⟨tokens, others, begins⟩ := node.lines_cons (depth + 1)
    rw [Block.lines, Block.statements]
    rw [Node.linesAll, begins] at inner ⊢
    exact inner.opened rfl

theorem Branch.laid : ∀ branches : List Branch, Branch.AreWritten branches → ∀ {depth : Nat}
    {more : List Line} {words : List Token}, Line.Shallow depth more → Laid depth more words →
      Laid depth (Branch.linesAll depth branches ++ more) (Branch.scripts branches ++ words)
  | [], _, _, _, _, _, laid => laid
  | .of condition body :: branches, proper, depth, more, words, shallow, laid => by
    rw [Branch.AreWritten] at proper
    have inner := body.laid proper.2.1 (Branch.linesAll_shallow shallow branches)
      (Branch.laid branches proper.2.2 shallow laid)
    rw [Branch.linesAll, Branch.scripts]
    simpa only [List.append_assoc, List.cons_append, List.nil_append, Block.script_append] using
      inner.header "elif" (by decide) (condition.writable_words proper.1)

end

end TabScript
