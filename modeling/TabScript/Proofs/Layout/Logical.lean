import TabScript.Proofs.Layout.Rows

/-! The tokens of a program text, row by row.

Between two rows the indentations that the lexer remembers count down from that of the row before, and
its last token is the end of a line. So a row opens at most one block, and every block that it closes was
opened. -/

set_option autoImplicit false

namespace TabScript

namespace Row

variable {above : Option Row} {row : Row}

def depth (above : Option Row) : Nat := above.elim 0 tabs

/-- The row must not stand here: there is something else than tabs in front of it, or it is further in
than the one block that a row can open. The first row can open none. -/
def Misplaced (above : Option Row) (row : Row) : Prop :=
  (∃ character ∈ row.margin, character ≠ '\t') ∨
    match above with
    | none => 0 < row.tabs
    | some above => above.tabs + 2 ≤ row.tabs

def opening (above : Option Row) (row : Row) : List TokenKind :=
  if row.tabs = depth above + 1 then [.indent]
  else List.replicate (depth above - row.tabs) .dedent

end Row

def TokenKind.isContent : TokenKind → Bool
  | .endOfProgram | .newline | .indent | .dedent => false
  | .punctuator | .keyword | .identifier | .boolean | .number | .text => true

/-- What is read behind a row, given the rows to come and the fault after them. -/
inductive Row.Comes : Option Row → List Row → Option Fault → Except Fault (List Token) → Prop where
  | done (above : Option Row) (stop : Position) :
    Comes above [] none (.ok (List.replicate (depth above) (.structural .dedent stop) ++
      [.structural .endOfProgram stop]))
  | misplaced {above : Option Row} {row : Row} (wrong : row.Misplaced above) {fault : Fault}
    (kind : fault.cause.kind = .badIndentation) (matched : fault.cause ≠ .unmatchedIndentation)
    (rows : List Row) (broken : Option Fault) : Comes above (row :: rows) broken (.error fault)
  | broken {above : Option Row} {row : Row} (fits : ¬row.Misplaced above) {fault : Fault}
    (lexical : fault.cause.kind ≠ .badIndentation) : Comes above [row] (some fault) (.error fault)
  | row {above : Option Row} {row : Row} (fits : ¬row.Misplaced above) (something : row.content ≠ [])
    (content : ∀ token ∈ row.content, token.kind.isContent = true) {opening : List Token}
    (opens : opening.map Token.kind = row.opening above) {ending : Token}
    (ends : ending.kind = .newline) {rows : List Row} {broken : Option Fault}
    {result : Except Fault (List Token)} (others : Comes (some row) rows broken result) :
    Comes above (row :: rows) broken
      (result.map fun tokens => opening ++ row.content ++ ending :: tokens)

namespace Token

variable {first : Char} {scanner behind : Scanner} {token : Token} {fault : Fault}

theorem isContent_read (read : Token.read first scanner = .ok (token, behind)) :
    token.kind.isContent = true := by
  unfold Token.read at read
  split at read
  · unfold readText at read
    cases body : readTextBody first scanner.position scanner.advance.rest scanner.advance.position []
      with
    | error fault => simp [body, bind, Except.bind] at read
    | ok result =>
      simp only [body, bind, Except.bind, pure, Except.pure, Except.ok.injEq, Prod.mk.injEq] at read
      rw [← read.1]
      rfl
  split at read
  · unfold readNumber at read
    dsimp only at read
    split at read
    · cases read
    · cases read
      rfl
  split at read
  · cases read
    unfold ofWord
    split
    · rfl
    split
    · rfl
    split
    · rfl
    split <;> rfl
  split at read
  · cases read
    rfl
  split at read
  · cases read
    rfl
  · cases read

theorem kind_readTextBody (quote : Char) (start : Position) (input : List Char)
    (position : Position) (sofar : List Char)
    (failed : readTextBody quote start input position sofar = .error fault) :
    fault.cause.kind ≠ .badIndentation := by
  fun_induction readTextBody quote start input position sofar <;> grind [Cause.kind]

theorem kind_read (failed : Token.read first scanner = .error fault) :
    fault.cause.kind ≠ .badIndentation := by
  unfold Token.read at failed
  split at failed
  · unfold readText at failed
    cases body : readTextBody first scanner.position scanner.advance.rest scanner.advance.position []
      with
    | error other =>
      simp only [body, bind, Except.bind, Except.error.injEq] at failed
      exact failed ▸ kind_readTextBody _ _ _ _ _ body
    | ok result => simp [body, bind, Except.bind, pure, Except.pure] at failed
  split at failed
  · unfold readNumber at failed
    dsimp only at failed
    split at failed
    · cases failed
      simp [Cause.kind]
    · cases failed
  split at failed
  · cases failed
  split at failed
  · cases failed
  split at failed
  · cases failed
  · cases failed
    simp [Cause.kind]

end Token

namespace Scanner

variable {scanner next : Scanner} {tokens : List Token} {fault : Fault}

theorem isContent_line (read : scanner.line = .ok (tokens, next)) :
    ∀ token ∈ tokens, token.kind.isContent = true := by
  fun_induction line scanner generalizing tokens with
  | case1 =>
    obtain ⟨rfl, -⟩ := Prod.mk.inj (Except.ok.inj read)
    simp
  | case2 =>
    obtain ⟨rfl, -⟩ := Prod.mk.inj (Except.ok.inj read)
    simp
  | case3 =>
    obtain ⟨rfl, -⟩ := Prod.mk.inj (Except.ok.inj read)
    simp
  | case4 => cases read
  | case5 scanner here first rest newline comment shape token behind =>
    rename_i found ih
    cases others : behind.line with
    | error fault =>
      rw [others] at read
      cases read
    | ok result =>
      rw [others] at read
      cases read
      intro other inside
      rcases List.mem_cons.1 inside with rfl | inside
      · exact Token.isContent_read found
      · exact ih others other inside

theorem kind_line (failed : scanner.line = .error fault) : fault.cause.kind ≠ .badIndentation := by
  fun_induction line scanner with
  | case1 => cases failed
  | case2 => cases failed
  | case3 => cases failed
  | case4 scanner here first rest newline comment shape other =>
    rename_i found
    cases failed
    exact Token.kind_read found
  | case5 scanner here first rest newline comment shape token behind =>
    rename_i found ih
    cases others : behind.line with
    | error other =>
      rw [others] at failed
      cases failed
      exact ih others
    | ok result =>
      rw [others] at failed
      cases failed

theorem skipWhile_blanks (scanner : Scanner) :
    (scanner.skipWhile Text.isBlankInLine).skipWhile Text.isBlankInLine =
      scanner.skipWhile Text.isBlankInLine :=
  skipWhile_skipWhile (fun _ blank => blank) scanner

theorem line_skipWhile (scanner : Scanner) :
    (scanner.skipWhile Text.isBlankInLine).line = scanner.line := by
  rw [line, line, skipWhile_blanks]

end Scanner

namespace Lexer

open Scanner

variable {scanner : Scanner} {depths : List Nat} {emitted : List Token}

/-- At the end of the text it makes no difference whether a line was begun. -/
theorem tokens_spent (spent : scanner.rest = []) :
    tokens ⟨scanner, depths, emitted, true⟩ = tokens ⟨scanner, depths, emitted, false⟩ := by
  obtain ⟨rest, position⟩ := scanner
  cases spent
  exact tokens_of_advance rfl

theorem tokens_of_error {lexer : Lexer} {fault : Fault} (step : lexer.advance = .error fault) :
    lexer.tokens = .error fault := by
  rw [tokens]
  split
  · rename_i found
    exact congrArg Except.error (Except.error.inj (found.symm.trans step))
  · rename_i found
    cases step.symm.trans found
  · rename_i found
    cases step.symm.trans found

theorem tokens_inside_spent (spent : (scanner.skipWhile Text.isBlankInLine).rest = []) :
    tokens ⟨scanner, depths, emitted, false⟩ =
      .ok (finish ⟨scanner, depths, emitted, false⟩) := by
  apply tokens_of_end
  rw [advance, if_neg (by simp), continueLine]
  simp only [skipBlanks]
  split
  · rfl
  all_goals
    rename_i shape
    cases spent.symm.trans shape

theorem tokens_ended (scanner : Scanner) (depths : List Nat) (before : List Token) {last : Token}
    (open_ : last.kind ≠ .newline)
    (ends : ∀ character ∈ (scanner.skipWhile Text.isBlankInLine).rest.head?, character = '\n') :
    ∃ ending : Token, ending.kind = .newline ∧
      tokens ⟨scanner, depths, last :: before, false⟩ =
        tokens ⟨(scanner.skipWhile Text.isBlankInLine).advance, depths, ending :: last :: before,
          true⟩ := by
  cases shape : (scanner.skipWhile Text.isBlankInLine).rest with
  | nil =>
    refine ⟨⟨.newline, none, .point (scanner.skipWhile Text.isBlankInLine).position⟩, rfl, ?_⟩
    -- the end of the text is no character, so to advance there is to stay
    have stays : (scanner.skipWhile Text.isBlankInLine).advance =
        scanner.skipWhile Text.isBlankInLine := by rw [Scanner.advance, shape]
    rw [stays, tokens_inside_spent shape, tokens_spent shape,
      tokens_inside_spent (by rw [skipWhile_blanks, shape])]
    simp only [finish, skipBlanks, skipWhile_blanks, endLine, open_, if_true, if_false]
  | cons character rest =>
    rw [shape] at ends
    obtain rfl := ends character rfl
    refine ⟨⟨.newline, none, .single (scanner.skipWhile Text.isBlankInLine).position⟩, rfl, ?_⟩
    apply tokens_of_advance
    rw [advance, if_neg (by simp), continueLine]
    simp only [skipBlanks]
    split
    · rename_i other
      cases shape.symm.trans other
    · simp only [endLine, open_, if_false]
    · rename_i other
      cases shape.symm.trans other
    · rename_i other _ found
      cases shape.symm.trans found
      exact absurd rfl other

variable {first : Char} {rest : List Char} (newline : first ≠ '\n') (comment : first ≠ '#')
  (shape : (scanner.skipWhile Text.isBlankInLine).rest = first :: rest)

include newline comment shape

theorem continueLine_read :
    continueLine ⟨scanner, depths, emitted, false⟩ =
      (Token.read first (scanner.skipWhile Text.isBlankInLine)).map fun (token, behind) =>
        some ⟨behind, depths, token :: emitted, false⟩ := by
  rw [continueLine]
  simp only [skipBlanks]
  split
  · rename_i found
    cases shape.symm.trans found
  · rename_i found
    cases shape.symm.trans found
    exact absurd rfl newline
  · rename_i found
    cases shape.symm.trans found
    exact absurd rfl comment
  · rename_i found
    cases shape.symm.trans found
    cases Token.read first (scanner.skipWhile Text.isBlankInLine) <;> rfl

theorem tokens_read {token : Token} {behind : Scanner}
    (read : Token.read first (scanner.skipWhile Text.isBlankInLine) = .ok (token, behind)) :
    tokens ⟨scanner, depths, emitted, false⟩ = tokens ⟨behind, depths, token :: emitted, false⟩ := by
  apply tokens_of_advance
  rw [advance, if_neg (by simp), continueLine_read newline comment shape, read]
  rfl

theorem tokens_read_error {fault : Fault}
    (failed : Token.read first (scanner.skipWhile Text.isBlankInLine) = .error fault) :
    tokens ⟨scanner, depths, emitted, false⟩ = .error fault := by
  apply tokens_of_error
  rw [advance, if_neg (by simp), continueLine_read newline comment shape, failed]
  rfl

omit newline comment shape

theorem tokens_comment {rest : List Char}
    (shape : (scanner.skipWhile Text.isBlankInLine).rest = '#' :: rest) :
    tokens ⟨scanner, depths, emitted, false⟩ =
      tokens ⟨(scanner.skipWhile Text.isBlankInLine).skipWhile (· != '\n'), depths, emitted,
        false⟩ := by
  apply tokens_of_advance
  rw [advance, if_neg (by simp), continueLine]
  simp only [skipBlanks]
  split
  · rename_i found
    cases shape.symm.trans found
  · rename_i found
    cases shape.symm.trans found
  · rfl
  · rename_i other found
    cases shape.symm.trans found
    exact absurd rfl other

theorem head?_lineEnd (scanner : Scanner) :
    ∀ character ∈ (scanner.skipWhile (· != '\n')).rest.head?, character = '\n' := by
  intro character head
  simpa using head?_skipWhile scanner _ character head

theorem skipWhile_lineEnd (scanner : Scanner) :
    (scanner.skipWhile (· != '\n')).skipWhile Text.isBlankInLine =
      scanner.skipWhile (· != '\n') := by
  refine skipWhile_eq_self fun character head => ?_
  rw [head?_lineEnd scanner character head]
  rfl

theorem tokens_of_line {words : List Token} {next : Scanner} (read : scanner.line = .ok (words, next))
    {last : Token} {before : List Token} (open_ : last.kind ≠ .newline) :
    ∃ ending : Token, ending.kind = .newline ∧
      tokens ⟨scanner, depths, last :: before, false⟩ =
        tokens ⟨next, depths, ending :: (words.reverse ++ last :: before), true⟩ := by
  -- the token before is never the end of a line, so the end of this one is not left out
  fun_induction line scanner generalizing words last before with
  | case1 scanner here =>
    rename_i shape
    obtain ⟨rfl, rfl⟩ := Prod.mk.inj (Except.ok.inj read)
    have ends : ∀ character ∈ here.rest.head?, character = '\n' := by simp [shape]
    have ended := tokens_ended scanner depths before open_ ends
    have stays : here.advance = here := by rw [Scanner.advance, shape]
    rw [← stays]
    exact ended
  | case2 scanner here =>
    rename_i rest shape
    obtain ⟨rfl, rfl⟩ := Prod.mk.inj (Except.ok.inj read)
    have ends : ∀ character ∈ here.rest.head?, character = '\n' := by simp [shape]
    exact tokens_ended scanner depths before open_ ends
  | case3 scanner here =>
    rename_i rest shape
    obtain ⟨rfl, rfl⟩ := Prod.mk.inj (Except.ok.inj read)
    have ended := tokens_ended (here.skipWhile (· != '\n')) depths before open_
      (by rw [skipWhile_lineEnd]; exact head?_lineEnd here)
    rw [skipWhile_lineEnd] at ended
    rw [tokens_comment shape]
    exact ended
  | case4 => cases read
  | case5 scanner here first rest newline comment shape token behind =>
    rename_i found ih
    cases others : behind.line with
    | error fault =>
      rw [others] at read
      cases read
    | ok result =>
      rw [others] at read
      cases read
      have content := Token.isContent_read found
      have word : token.kind ≠ .newline := fun same => by rw [same] at content; cases content
      obtain ⟨ending, ends, same⟩ := ih others word
      refine ⟨ending, ends, ?_⟩
      rw [tokens_read newline comment shape found, same, List.reverse_cons, List.append_assoc]
      rfl

theorem tokens_of_line_error {fault : Fault} (failed : scanner.line = .error fault) :
    tokens ⟨scanner, depths, emitted, false⟩ = .error fault := by
  fun_induction line scanner generalizing emitted with
  | case1 => cases failed
  | case2 => cases failed
  | case3 => cases failed
  | case4 scanner here first rest newline comment shape other =>
    rename_i found
    cases failed
    exact tokens_read_error newline comment shape found
  | case5 scanner here first rest newline comment shape token behind =>
    rename_i found ih
    cases others : behind.line with
    | error other =>
      rw [others] at failed
      cases failed
      rw [tokens_read newline comment shape found]
      exact ih others
    | ok result =>
      rw [others] at failed
      cases failed

theorem isBlankInLine_of_tab (character : Char) (tab : (character == '\t') = true) :
    Text.isBlankInLine character = true := by
  rw [beq_iff_eq.1 tab]
  rfl

/-- The white space in front of a line is passed over as a whole. -/
theorem skipWhile_margin (scanner : Scanner) :
    (scanner.skipWhile (· == '\t')).skipWhile Text.isBlankInLine =
      scanner.skipWhile Text.isBlankInLine :=
  skipWhile_skipWhile isBlankInLine_of_tab scanner

theorem tokens_blank {next : Scanner} (read : scanner.line = .ok ([], next)) :
    tokens ⟨scanner, depths, emitted, true⟩ = tokens ⟨next, depths, emitted, true⟩ := by
  have start : ∀ lexer : Lexer, startLine ⟨scanner, depths, emitted, true⟩ = .ok lexer →
      tokens ⟨scanner, depths, emitted, true⟩ = tokens lexer := by
    intro lexer started
    apply tokens_of_advance
    rw [advance, if_pos rfl, started]
    rfl
  rw [line] at read
  split at read
  · rename_i shape
    obtain ⟨-, rfl⟩ := Prod.mk.inj (Except.ok.inj read)
    rw [tokens_spent shape]
    exact start _ (by simp only [startLine, skipWhile_margin, shape])
  · rename_i rest shape
    obtain ⟨-, rfl⟩ := Prod.mk.inj (Except.ok.inj read)
    exact start _ (by simp only [startLine, skipWhile_margin, shape])
  · rename_i rest shape
    obtain ⟨-, rfl⟩ := Prod.mk.inj (Except.ok.inj read)
    -- a comment, which may be the last thing in the text
    cases stop : ((scanner.skipWhile Text.isBlankInLine).skipWhile (· != '\n')).atEnd with
    | false => exact start _ (by simp only [startLine, skipWhile_margin, shape, stop, Bool.not_false])
    | true =>
      have spent : ((scanner.skipWhile Text.isBlankInLine).skipWhile (· != '\n')).advance.rest = [] := by
        rw [Scanner.advance, List.isEmpty_iff.1 stop]
        exact List.isEmpty_iff.1 stop
      rw [tokens_spent spent]
      exact start _ (by simp only [startLine, skipWhile_margin, shape, stop, Bool.not_true])
  · rename_i first rest newline comment shape
    split at read
    · cases read
    · rename_i token behind found
      cases others : behind.line <;> rw [others] at read <;> cases read

theorem startLine_row {first : Char} {rest : List Char} (newline : first ≠ '\n') (comment : first ≠ '#')
    (shape : (scanner.skipWhile Text.isBlankInLine).rest = first :: rest) :
    startLine ⟨scanner, depths, emitted, true⟩ =
      if (scanner.skipWhile (· == '\t')).run Text.isBlankInLine ≠ [] then
        .error ⟨.strayIndentation, .single (scanner.skipWhile (· == '\t')).position⟩
      else
        indentTo ⟨scanner.skipWhile Text.isBlankInLine, depths, emitted, false⟩
          (scanner.run (· == '\t')).length
          ⟨scanner.position, (scanner.skipWhile Text.isBlankInLine).position⟩ := by
  simp only [startLine, skipWhile_margin]
  split
  · rename_i found
    cases found.symm.trans shape
  · rename_i found
    cases found.symm.trans shape
    exact absurd rfl newline
  · rename_i found
    cases found.symm.trans shape
    exact absurd rfl comment
  · rfl

/-- White space behind the tabs begins with something else. -/
theorem head?_stray (scanner : Scanner) :
    ∀ character ∈ ((scanner.skipWhile (· == '\t')).run Text.isBlankInLine).head?,
      (character == '\t') = false := by
  have fails := head?_skipWhile scanner (· == '\t')
  generalize scanner.skipWhile (· == '\t') = behind at fails ⊢
  obtain ⟨rest, position⟩ := behind
  cases rest with
  | nil => simp [Scanner.run]
  | cons first rest =>
    intro character head
    have same : character = first := by
      cases blank : Text.isBlankInLine first <;>
        simp_all [Scanner.run]
    exact same ▸ fails first rfl

theorem tabs_margin (scanner : Scanner) (content : List Token) :
    Row.tabs ⟨scanner.run Text.isBlankInLine, content⟩ = (scanner.run (· == '\t')).length := by
  have tabs : ∀ character ∈ scanner.run (· == '\t'), (character == '\t') = true :=
    fun character inside => of_mem_run (· == '\t') inside
  rw [Row.tabs, run_append isBlankInLine_of_tab scanner, List.takeWhile_append_of_pos tabs,
    List.length_append]
  cases stray : (scanner.skipWhile (· == '\t')).run Text.isBlankInLine with
  | nil => rfl
  | cons first rest =>
    have fails := head?_stray scanner first (by rw [stray]; rfl)
    rw [List.takeWhile_cons_of_neg (by simp [fails])]
    rfl

/-- White space in front of a line that is not only tabs goes on behind the tabs. -/
theorem stray_margin (scanner : Scanner) :
    (∃ character ∈ scanner.run Text.isBlankInLine, character ≠ '\t') ↔
      (scanner.skipWhile (· == '\t')).run Text.isBlankInLine ≠ [] := by
  rw [run_append isBlankInLine_of_tab scanner]
  constructor
  · rintro ⟨character, inside, other⟩ none_
    rw [none_, List.append_nil] at inside
    have tab : (character == '\t') = true := of_mem_run (· == '\t') inside
    exact other (beq_iff_eq.1 tab)
  · intro some_
    obtain ⟨character, rest, stray⟩ := List.exists_cons_of_ne_nil some_
    have fails := head?_stray scanner character (by rw [stray]; rfl)
    exact ⟨character, List.mem_append_right _ (stray ▸ List.mem_cons_self), by simpa using fails⟩

theorem startLine_misplaced {above : Option Row} {content : List Token} {first : Char}
    {rest : List Char} (newline : first ≠ '\n') (comment : first ≠ '#')
    (shape : (scanner.skipWhile Text.isBlankInLine).rest = first :: rest)
    (begun : above = none ↔ emitted = [])
    (wrong : Row.Misplaced above ⟨scanner.run Text.isBlankInLine, content⟩) :
    ∃ fault : Fault, fault.cause.kind = .badIndentation ∧ fault.cause ≠ .unmatchedIndentation ∧
      tokens ⟨scanner, countdown (Row.depth above), emitted, true⟩ = .error fault := by
  have refused : ∃ fault : Fault, fault.cause.kind = .badIndentation ∧
      fault.cause ≠ .unmatchedIndentation ∧
      startLine ⟨scanner, countdown (Row.depth above), emitted, true⟩ = .error fault := by
    rw [startLine_row newline comment shape]
    by_cases stray : (scanner.skipWhile (· == '\t')).run Text.isBlankInLine ≠ []
    · rw [if_pos stray]
      exact ⟨⟨.strayIndentation, _⟩, rfl, by simp, rfl⟩
    · rw [if_neg stray, ← tabs_margin scanner content, indentTo]
      -- white space that is no tab is found first, so here only the depth can be wrong
      rcases wrong with other | deep
      · exact absurd ((stray_margin scanner).1 other) stray
      cases above with
      | none =>
        rw [if_pos ⟨List.isEmpty_iff.2 (begun.1 rfl), deep⟩]
        exact ⟨⟨.indentedFirstLine, _⟩, rfl, by simp, rfl⟩
      | some above =>
        have further : above.tabs + 2 ≤ Row.tabs ⟨scanner.run Text.isBlankInLine, content⟩ := deep
        have some_ : ¬emitted.isEmpty = true := fun empty => by
          cases begun.2 (List.isEmpty_iff.1 empty)
        have here : Lexer.depth ⟨scanner.skipWhile Text.isBlankInLine,
            countdown (Row.depth (some above)), emitted, false⟩ = above.tabs := headD_countdown _
        rw [if_neg (fun first => some_ first.1), here, if_neg (by omega), if_pos (by omega)]
        exact ⟨⟨.tooMuchIndentation, _⟩, rfl, by simp, rfl⟩
  obtain ⟨fault, kind, matched, started⟩ := refused
  refine ⟨fault, kind, matched, tokens_of_error ?_⟩
  rw [advance, if_pos rfl, started]
  rfl

/-- A row in its place opens and closes the blocks that its tabs tell of. -/
theorem startLine_opening {above : Option Row} {content : List Token} {first : Char}
    {rest : List Char} (newline : first ≠ '\n') (comment : first ≠ '#')
    (shape : (scanner.skipWhile Text.isBlankInLine).rest = first :: rest)
    (begun : above = none ↔ emitted = [])
    (fits : ¬Row.Misplaced above ⟨scanner.run Text.isBlankInLine, content⟩) :
    ∃ opening : List Token, opening.map Token.kind =
        Row.opening above ⟨scanner.run Text.isBlankInLine, content⟩ ∧
      tokens ⟨scanner, countdown (Row.depth above), emitted, true⟩ =
        tokens ⟨scanner.skipWhile Text.isBlankInLine, countdown (Row.tabs
          ⟨scanner.run Text.isBlankInLine, content⟩), opening.reverse ++ emitted, false⟩ := by
  have clean : ¬(scanner.skipWhile (· == '\t')).run Text.isBlankInLine ≠ [] :=
    fun stray => fits (.inl ((stray_margin scanner).2 stray))
  have started : startLine ⟨scanner, countdown (Row.depth above), emitted, true⟩ = _ :=
    startLine_row newline comment shape
  rw [if_neg clean, ← tabs_margin scanner content] at started
  generalize Span.mk scanner.position (scanner.skipWhile Text.isBlankInLine).position = span at started
  generalize Row.mk (scanner.run Text.isBlankInLine) content = row at fits started ⊢
  have step : ∀ next : Lexer, startLine ⟨scanner, countdown (Row.depth above), emitted, true⟩ =
      .ok next → tokens ⟨scanner, countdown (Row.depth above), emitted, true⟩ = tokens next := by
    intro next done
    apply tokens_of_advance
    rw [advance, if_pos rfl, done]
    rfl
  -- one tab more opens a block; any other depth that fits closes as many blocks as tabs are missing
  by_cases deeper : row.tabs = Row.depth above + 1
  · have some_ : emitted ≠ [] := by
      intro none_
      refine fits (.inr ?_)
      rw [begun.2 none_]
      exact deeper ▸ Nat.succ_pos _
    refine ⟨[⟨.indent, none, span⟩], by rw [Row.opening, if_pos deeper]; rfl, step _ ?_⟩
    rw [started, deeper]
    exact indentTo_next _ rfl some_ _
  · have within : row.tabs ≤ Row.depth above := by
      cases above with
      | none => exact Nat.le_of_not_lt fun deep => fits (.inr deep)
      | some above =>
        have near : ¬above.tabs + 2 ≤ row.tabs := fun deep => fits (.inr deep)
        have here : Row.depth (some above) = above.tabs := rfl
        omega
    have first : emitted = [] → row.tabs = 0 := by
      intro none_
      rw [begun.2 none_] at within
      exact Nat.le_zero.1 within
    refine ⟨List.replicate (Row.depth above - row.tabs) ⟨.dedent, none, span⟩, ?_, step _ ?_⟩
    · rw [Row.opening, if_neg deeper, List.map_replicate]
    · rw [started, List.reverse_replicate]
      exact indentTo_within _ within rfl first _

theorem head_of_line {result : Except Fault (List Token × Scanner)} (read : scanner.line = result)
    (something : ∀ next, result ≠ .ok ([], next)) :
    ∃ first rest, (scanner.skipWhile Text.isBlankInLine).rest = first :: rest ∧
      first ≠ '\n' ∧ first ≠ '#' := by
  rw [line] at read
  split at read
  · exact absurd read.symm (something _)
  · exact absurd read.symm (something _)
  · exact absurd read.symm (something _)
  · rename_i first rest newline comment shape
    exact ⟨first, rest, shape, newline, comment⟩

theorem line_cons {token : Token} {words : List Token} {next : Scanner} {first : Char}
    {rest : List Char} (shape : (scanner.skipWhile Text.isBlankInLine).rest = first :: rest)
    (read : scanner.line = .ok (token :: words, next)) :
    ∃ behind, Token.read first (scanner.skipWhile Text.isBlankInLine) = .ok (token, behind) ∧
      behind.line = .ok (words, next) := by
  rw [line] at read
  split at read
  · cases read
  · cases read
  · cases read
  · rename_i head tail _ _ found
    cases shape.symm.trans found
    split at read
    · cases read
    · rename_i other behind begins
      cases others : behind.line with
      | error fault =>
        rw [others] at read
        cases read
      | ok result =>
        rw [others] at read
        cases read
        exact ⟨behind, begins, others⟩

theorem comes_rows (scanner : Scanner) {above : Option Row} {emitted : List Token}
    (begun : above = none ↔ emitted = []) (ended : ∀ last ∈ emitted.head?, last.kind = .newline) :
    ∃ result, Row.Comes above scanner.rows.1 scanner.rows.2 result ∧
      tokens ⟨scanner, countdown (Row.depth above), emitted, true⟩ =
        result.map (emitted.reverse ++ ·) := by
  -- in front of each row the lexer stands at the start of a line and counts down from the row above
  fun_induction rows scanner generalizing above emitted with
  | case1 scanner spent =>
    refine ⟨_, .done above scanner.position, ?_⟩
    have stays : scanner.skipWhile Text.isBlankInLine = scanner :=
      skipWhile_eq_self (by simp [spent])
    rw [tokens_spent spent, tokens_inside_spent (by rw [stays, spent])]
    -- the last line has ended, so that only blocks are left to close
    have closed : ∀ span, endLine ⟨scanner, countdown (Row.depth above), emitted, false⟩ span =
        ⟨scanner, countdown (Row.depth above), emitted, false⟩ := by
      intro span
      cases emitted with
      | nil => rfl
      | cons last before => simp only [endLine, ended last rfl, if_true]
    simp only [finish, skipBlanks, stays, closed, List.map_const', length_countdown, Except.map,
      List.append_assoc]
  | case2 scanner more fault =>
    rename_i failed
    obtain ⟨first, rest, shape, newline, comment⟩ := head_of_line failed (by simp)
    -- the margin is looked at before the content, so a broken row out of its place is refused for its place
    by_cases wrong : Row.Misplaced above ⟨scanner.run Text.isBlankInLine, []⟩
    · obtain ⟨other, kind, matched, same⟩ := startLine_misplaced newline comment shape begun wrong
      exact ⟨_, .misplaced wrong kind matched _ _, same⟩
    · obtain ⟨opening, -, same⟩ := startLine_opening newline comment shape begun wrong
      refine ⟨_, .broken wrong (kind_line failed), ?_⟩
      rw [same]
      exact tokens_of_line_error ((line_skipWhile scanner).trans failed)
  | case3 scanner more next =>
    rename_i read ih
    obtain ⟨result, comes, same⟩ := ih begun ended
    exact ⟨result, comes, (tokens_blank read).trans same⟩
  | case4 scanner more token words next =>
    rename_i read ih
    obtain ⟨first, rest, shape, newline, comment⟩ := head_of_line read (by simp)
    by_cases wrong : Row.Misplaced above ⟨scanner.run Text.isBlankInLine, token :: words⟩
    · obtain ⟨other, kind, matched, same⟩ := startLine_misplaced newline comment shape begun wrong
      exact ⟨_, .misplaced wrong kind matched _ _, same⟩
    · obtain ⟨opening, opens, same⟩ := startLine_opening newline comment shape begun wrong
      obtain ⟨behind, begins, others⟩ := line_cons shape read
      have content := isContent_line read
      have word : token.kind ≠ .newline := fun kind => by
        have written := content token List.mem_cons_self
        rw [kind] at written
        cases written
      obtain ⟨ending, ends, left⟩ := tokens_of_line others word
      have follows : some (Row.mk (scanner.run Text.isBlankInLine) (token :: words)) = none ↔
          ending :: (words.reverse ++ token :: (opening.reverse ++ emitted)) = [] := by simp
      obtain ⟨result, comes, onward⟩ := ih follows (by simpa using ends)
      refine ⟨_, .row wrong (List.cons_ne_nil _ _) content opens ends comes, ?_⟩
      rw [same, tokens_read newline comment ((skipWhile_blanks scanner).symm ▸ shape)
        ((skipWhile_blanks scanner).symm ▸ begins), left]
      refine onward.trans ?_
      cases result with
      | error fault => rfl
      | ok behind => simp [Except.map]

end Lexer

end TabScript
