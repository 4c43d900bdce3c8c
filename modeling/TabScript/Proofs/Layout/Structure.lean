import TabScript.Proofs.Layout.Logical

/-! How the tokens of a program text are nested.

Every row gives one logical line: the tokens that open or close blocks, the tokens of the row, and the
end of the line. As many blocks are open on a line as it has tabs. -/

set_option autoImplicit false

namespace TabScript

def Token.level (tokens : List Token) : Int :=
  (tokens.map Token.kind).count .indent - (tokens.map Token.kind).count .dedent

/-- The tokens of a line with those that open or close blocks in front of it. -/
structure LogicalLine where
  opening : List Token
  content : List Token
  ending : Token

namespace LogicalLine

def tokens (line : LogicalLine) : List Token := line.opening ++ line.content ++ [line.ending]

structure WellFormed (line : LogicalLine) : Prop where
  opens : line.opening.map Token.kind = [.indent] ∨ ∀ token ∈ line.opening, token.kind = .dedent
  something : line.content ≠ []
  content : ∀ token ∈ line.content, token.kind.isContent = true
  ends : line.ending.kind = .newline

end LogicalLine

/-- The tokens behind a place where so many blocks are open, if there is one logical line for every row
and nothing else but the closing of all blocks and the end of the program. -/
structure Structured (depth : Nat) (rows : List Row) (tokens : List Token) (lines : List LogicalLine) :
    Prop where
  whole : ∃ (closing : List Token) (last : Token),
    tokens = lines.flatMap LogicalLine.tokens ++ closing ++ [last] ∧
      (∀ token ∈ closing, token.kind = .dedent) ∧ last.kind = .endOfProgram
  wellFormed : ∀ line ∈ lines, line.WellFormed
  content : lines.map LogicalLine.content = rows.map Row.content
  tabs : ∀ before line after, lines = before ++ line :: after →
    ∃ row ∈ rows[before.length]?, row.margin = List.replicate row.tabs '\t' ∧
      depth + Token.level (before.flatMap LogicalLine.tokens ++ line.opening) = row.tabs
  balanced : depth + Token.level tokens = 0
  bounded : ∀ part, part <+: tokens → 0 ≤ depth + Token.level part

namespace Token

theorem level_append (first second : List Token) :
    level (first ++ second) = level first + level second := by
  simp only [level, List.map_append, List.count_append]
  omega

theorem level_ge {tokens part : List Token} (begins : part <+: tokens) :
    -((tokens.map Token.kind).count .dedent : Int) ≤ level part := by
  have fewer := (begins.map Token.kind).sublist.count_le .dedent
  simp only [level]
  omega

theorem level_content {tokens : List Token} (content : ∀ token ∈ tokens, token.kind.isContent = true) :
    (tokens.map Token.kind).count .indent = 0 ∧ (tokens.map Token.kind).count .dedent = 0 := by
  constructor <;>
  · refine List.count_eq_zero.2 fun inside => ?_
    obtain ⟨token, member, kind⟩ := List.mem_map.1 inside
    have written := content token member
    rw [kind] at written
    cases written

end Token

namespace Row

variable {above : Option Row} {row : Row} {rows : List Row} {broken : Option Fault}
  {result : Except Fault (List Token)}

def AnyMisplaced (above : Option Row) (rows : List Row) : Prop :=
  ∃ before row after, rows = before ++ row :: after ∧ row.Misplaced (before.getLast?.or above)

theorem anyMisplaced_cons :
    AnyMisplaced above (row :: rows) ↔ row.Misplaced above ∨ AnyMisplaced (some row) rows := by
  constructor
  · rintro ⟨before, other, after, split, wrong⟩
    cases before with
    | nil =>
      cases split
      exact .inl wrong
    | cons first before =>
      cases split
      refine .inr ⟨before, other, after, rfl, ?_⟩
      rw [List.getLast?_cons] at wrong
      cases last : before.getLast? <;> simpa [last] using wrong
  · rintro (wrong | ⟨before, other, after, rfl, wrong⟩)
    · exact ⟨[], row, rows, rfl, wrong⟩
    · refine ⟨row :: before, other, after, rfl, ?_⟩
      rw [List.getLast?_cons]
      cases last : before.getLast? <;> simpa [last] using wrong

theorem margin_eq (fits : ¬row.Misplaced above) : row.margin = List.replicate row.tabs '\t' := by
  have clean : ∀ character ∈ row.margin, character = '\t' := fun character inside =>
    Classical.not_not.1 fun other => fits (.inl ⟨character, inside, other⟩)
  have whole := List.eq_replicate_of_mem clean
  rw [tabs, whole, List.takeWhile_replicate_eq_filter, List.filter_replicate_of_pos rfl,
    List.length_replicate]

theorem tabs_le (fits : ¬row.Misplaced above) : row.tabs ≤ depth above + 1 := by
  cases above with
  | none => exact Nat.le_succ_of_le (Nat.le_of_not_lt fun deep => fits (.inr deep))
  | some above =>
    have near : ¬above.tabs + 2 ≤ row.tabs := fun deep => fits (.inr deep)
    have here : depth (some above) = above.tabs := rfl
    omega

theorem count_opening (fits : ¬row.Misplaced above) :
    ((row.opening above).count .indent : Int) - (row.opening above).count .dedent =
        row.tabs - depth above ∧ (row.opening above).count .dedent ≤ depth above := by
  have near := tabs_le fits
  unfold opening
  split
  · rename_i deeper
    have counts : ([.indent] : List TokenKind).count .indent = 1 ∧
        ([.indent] : List TokenKind).count .dedent = 0 := by decide
    rw [counts.1, counts.2]
    omega
  · rw [List.count_replicate_self, List.count_replicate, if_neg (by decide)]
    omega

/-- The line of a row in its place leads from the blocks around the row before to those around it, and
never out of all blocks. -/
theorem level_line (fits : ¬row.Misplaced above)
    (content : ∀ token ∈ row.content, token.kind.isContent = true) {opening : List Token}
    (opens : opening.map Token.kind = row.opening above) {ending : Token}
    (ends : ending.kind = .newline) :
    depth above + Token.level opening = row.tabs ∧
      depth above + Token.level (opening ++ row.content ++ [ending]) = row.tabs ∧
      ∀ part, part <+: opening ++ row.content ++ [ending] → 0 ≤ depth above + Token.level part := by
  obtain ⟨difference, closes⟩ := count_opening fits
  obtain ⟨noIndent, noDedent⟩ := Token.level_content content
  have nothing : ([ending].map Token.kind).count .indent = 0 ∧
      ([ending].map Token.kind).count .dedent = 0 := by
    rw [List.map_singleton, ends]
    decide
  refine ⟨?_, ?_, fun part begins => ?_⟩
  · rw [Token.level, opens]
    omega
  · rw [Token.level, List.map_append, List.map_append, List.count_append, List.count_append,
      List.count_append, List.count_append, opens, noIndent, noDedent, nothing.1, nothing.2]
    omega
  · have above_ := Token.level_ge begins
    rw [List.map_append, List.map_append, List.count_append, List.count_append, opens, noDedent,
      nothing.2] at above_
    omega

theorem opens_opening {opening : List Token} (opens : opening.map Token.kind = row.opening above) :
    opening.map Token.kind = [.indent] ∨ ∀ token ∈ opening, token.kind = .dedent := by
  unfold Row.opening at opens
  split at opens
  · exact .inl opens
  · refine .inr fun token inside => ?_
    have member := List.mem_map_of_mem (f := Token.kind) inside
    rw [opens] at member
    exact (List.mem_replicate.1 member).2

namespace Comes

theorem refused_iff (comes : Comes above rows broken result) :
    (∃ fault, result = .error fault ∧ fault.cause.kind = .badIndentation) ↔
      AnyMisplaced above rows := by
  induction comes with
  | done above stop =>
    constructor
    · rintro ⟨fault, same, -⟩
      cases same
    · rintro ⟨before, row, after, split, -⟩
      simp at split
  | misplaced wrong kind matched rows broken =>
    exact ⟨fun _ => anyMisplaced_cons.2 (.inl wrong), fun _ => ⟨_, rfl, kind⟩⟩
  | broken fits lexical =>
    constructor
    · rintro ⟨other, same, kind⟩
      cases same
      exact absurd kind lexical
    · intro wrong
      rcases anyMisplaced_cons.1 wrong with here | ⟨before, row, after, split, -⟩
      · exact absurd here fits
      · simp at split
  | @row above row fits something content opening opens ending ends rows broken result others ih =>
    rw [anyMisplaced_cons, or_iff_right fits, ← ih]
    cases result <;> simp [Except.map]

theorem matched (comes : Comes above rows broken result) {fault : Fault}
    (failed : result = .error fault) : fault.cause ≠ .unmatchedIndentation := by
  induction comes with
  | done => cases failed
  | misplaced wrong kind matched =>
    cases failed
    exact matched
  | broken fits lexical =>
    cases failed
    intro same
    rw [same] at lexical
    exact lexical rfl
  | @row above row fits something content opening opens ending ends rows broken result others ih =>
    cases result with
    | error other =>
      cases failed
      exact ih rfl
    | ok tokens => cases failed

theorem structured_done (depth : Nat) (stop : Position) :
    Structured depth [] (List.replicate depth (.structural .dedent stop) ++
      [.structural .endOfProgram stop]) [] := by
  have kinds : (List.replicate depth (Token.structural .dedent stop) ++
      [Token.structural .endOfProgram stop]).map Token.kind =
        List.replicate depth .dedent ++ [.endOfProgram] := by
    rw [List.map_append, List.map_replicate]
    rfl
  have indents : List.count TokenKind.indent (List.replicate depth .dedent ++ [.endOfProgram]) = 0 := by
    rw [List.count_append, List.count_replicate, if_neg (by decide)]
    rfl
  have dedents : List.count TokenKind.dedent (List.replicate depth .dedent ++ [.endOfProgram]) = depth := by
    rw [List.count_append, List.count_replicate_self]
    rfl
  exact {
    whole := ⟨_, _, rfl, fun token inside => (List.mem_replicate.1 inside).2 ▸ rfl, rfl⟩
    wellFormed := by simp
    content := rfl
    tabs := fun before line after split => by simp at split
    balanced := by
      rw [Token.level, kinds, indents, dedents]
      omega
    bounded := fun part begins => by
      have closed := Token.level_ge begins
      rw [kinds, dedents] at closed
      omega }

theorem structured_row {row : Row} {depth : Nat} {line : LogicalLine} (formed : line.WellFormed)
    (content : line.content = row.content) (margin : row.margin = List.replicate row.tabs '\t')
    (level : depth + Token.level line.opening = row.tabs ∧
      depth + Token.level line.tokens = row.tabs ∧
      ∀ part, part <+: line.tokens → 0 ≤ depth + Token.level part)
    {tokens : List Token} {lines : List LogicalLine}
    (others : Structured row.tabs rows tokens lines) :
    Structured depth (row :: rows) (line.tokens ++ tokens) (line :: lines) where
  whole := by
    obtain ⟨closing, last, split, closes, ends⟩ := others.whole
    refine ⟨closing, last, ?_, closes, ends⟩
    rw [split, List.flatMap_cons, List.append_assoc, List.append_assoc, List.append_assoc]
  wellFormed other inside := by
    rcases List.mem_cons.1 inside with rfl | inside
    · exact formed
    · exact others.wellFormed other inside
  content := by rw [List.map_cons, List.map_cons, content, others.content]
  tabs before other after split := by
    cases before with
    | nil =>
      cases split
      exact ⟨row, rfl, margin, level.1⟩
    | cons first before =>
      cases split
      obtain ⟨there, found, margin, same⟩ := others.tabs before other after rfl
      refine ⟨there, found, margin, ?_⟩
      rw [List.flatMap_cons, List.append_assoc, Token.level_append]
      omega
  balanced := by
    have inside := others.balanced
    rw [Token.level_append]
    omega
  bounded part begins := by
    -- a prefix ends within this line or within one of the lines behind it
    rcases List.prefix_or_prefix_of_prefix begins (List.prefix_append _ _) with within | ⟨rest, rfl⟩
    · exact level.2.2 part within
    · have inside := others.bounded rest ((List.prefix_append_right_inj _).1 begins)
      rw [Token.level_append]
      omega

theorem structured (comes : Comes above rows broken result) {tokens : List Token}
    (read : result = .ok tokens) :
    broken = none ∧ ∃ lines, Structured (depth above) rows tokens lines := by
  induction comes generalizing tokens with
  | done above stop =>
    cases read
    exact ⟨rfl, [], structured_done (depth above) stop⟩
  | misplaced => cases read
  | broken => cases read
  | @row above row fits something content opening opens ending ends rows broken result others ih =>
    cases result with
    | error other => cases read
    | ok behind =>
      cases read
      obtain ⟨unbroken, lines, inside⟩ := ih rfl
      have formed : LogicalLine.WellFormed ⟨opening, row.content, ending⟩ :=
        ⟨row.opens_opening opens, something, content, ends⟩
      have whole := structured_row formed rfl (margin_eq fits) (level_line fits content opens ends) inside
      refine ⟨unbroken, ⟨opening, row.content, ending⟩ :: lines, ?_⟩
      rw [LogicalLine.tokens, List.append_assoc, List.singleton_append] at whole
      exact whole

end Comes

end Row

/-- A text that can be read is a sequence of logical lines, one for every row, as deep as the row has tabs.
Indentation is refused just where a row stands out of its place, and never because a line would close a
block that was not opened. -/
theorem tokenize_structured (source : String) :
    (∀ tokens, tokenize source = .ok tokens →
      (Scanner.ofString source).rows.2 = none ∧
        ∃ lines, Structured 0 (Scanner.ofString source).rows.1 tokens lines) ∧
    ((∃ fault, tokenize source = .error fault ∧ fault.cause.kind = .badIndentation) ↔
      ∃ before row after, (Scanner.ofString source).rows.1 = before ++ row :: after ∧
        row.Misplaced before.getLast?) ∧
    ∀ fault, tokenize source = .error fault → fault.cause ≠ .unmatchedIndentation := by
  have begun : (none : Option Row) = none ↔ ([] : List Token) = [] := by simp
  obtain ⟨result, comes, same⟩ := Lexer.comes_rows (Scanner.ofString source) begun (by simp)
  have whole : tokenize source = result := by
    refine same.trans ?_
    cases result <;> rfl
  rw [whole]
  refine ⟨fun tokens read => comes.structured read, ?_, fun fault failed => comes.matched failed⟩
  have refused := comes.refused_iff
  simpa only [Row.AnyMisplaced, Option.or_none] using refused

/-- The blank line and the comment leave no trace. -/
example : ((tokenize "a\n\t# b\n\tc\n\n").toOption.map fun tokens => tokens.map Token.kind) =
    some [.identifier, .newline, .indent, .identifier, .newline, .dedent, .endOfProgram] := by
  decide +kernel

end TabScript
