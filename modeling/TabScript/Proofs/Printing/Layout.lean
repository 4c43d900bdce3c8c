import TabScript.Proofs.Printing.Reread

/-! Lines of tokens, and the tokens that are read from them.

One tab is written for every open block, and one blank between two tokens. Where a line is further in
than the one before, a block is opened; where it is further out, blocks are closed. -/

set_option autoImplicit false

namespace TabScript

structure Line where
  depth : Nat
  tokens : List Token

def Token.spaced : List Token → List Char
  | [] => []
  | [token] => token.written
  | token :: others => token.written ++ ' ' :: spaced others

theorem Token.spaced_cons {token : Token} {first : Char} {others : List Char}
    (written : token.written = first :: others) (tokens : List Token) :
    ∃ tail, Token.spaced (token :: tokens) = first :: tail := by
  cases tokens with
  | nil => exact ⟨others, written⟩
  | cons second tokens =>
    refine ⟨others ++ ' ' :: Token.spaced (second :: tokens), ?_⟩
    rw [Token.spaced, written, List.cons_append]
    exact List.cons_ne_nil _ _

namespace Line

def written (line : Line) : List Char :=
  List.replicate line.depth '\t' ++ (Token.spaced line.tokens ++ ['\n'])

def Writable (line : Line) : Prop :=
  line.tokens ≠ [] ∧ ∀ token ∈ line.tokens, token.Writable

def Shallow (depth : Nat) (lines : List Line) : Prop :=
  ∀ line ∈ lines.head?, line.depth ≤ depth

end Line

open Token (layout)

/-- The tokens of some lines that stand behind a line inside so many blocks. At their end all blocks
are closed. -/
inductive Laid : Nat → List Line → List Token → Prop where
  | done (depth : Nat) : Laid depth [] (List.replicate depth (layout .dedent))
  | further {depth : Nat} {line : Line} {lines : List Line} {words : List Token}
    (within : line.depth ≤ depth) (writable : line.Writable) (laid : Laid line.depth lines words) :
    Laid depth (line :: lines)
      (List.replicate (depth - line.depth) (layout .dedent) ++
        (line.tokens ++ layout .newline :: words))
  | deeper {depth : Nat} {line : Line} {lines : List Line} {words : List Token}
    (opened : line.depth = depth + 1) (writable : line.Writable)
    (laid : Laid line.depth lines words) :
    Laid depth (line :: lines) (layout .indent :: (line.tokens ++ layout .newline :: words))

namespace Laid

variable {depth : Nat} {lines : List Line} {words : List Token}

theorem close (laid : Laid depth lines words) (shallow : Line.Shallow depth lines) :
    Laid (depth + 1) lines (layout .dedent :: words) := by
  cases laid with
  | done => exact .done (depth + 1)
  | further within writable laid =>
    have closed := Laid.further (Nat.le_succ_of_le within) writable laid
    rw [Nat.succ_sub within, List.replicate_succ] at closed
    exact closed
  | deeper opened writable laid =>
    have inside := shallow _ rfl
    omega

theorem opened {line : Line} (laid : Laid (depth + 1) (line :: lines) words)
    (inside : line.depth = depth + 1) : Laid depth (line :: lines) (layout .indent :: words) := by
  cases laid with
  | further within writable laid =>
    rw [inside, Nat.sub_self, List.replicate_zero, List.nil_append]
    exact .deeper inside writable laid
  | deeper opened writable laid => omega

end Laid

namespace Lexer

def countdown : Nat → List Nat
  | 0 => []
  | depth + 1 => (depth + 1) :: countdown depth

theorem headD_countdown (depth : Nat) : (countdown depth).headD 0 = depth := by
  cases depth <;> rfl

theorem length_countdown (depth : Nat) : (countdown depth).length = depth := by
  induction depth with
  | zero => rfl
  | succ depth ih => rw [countdown, List.length_cons, ih]

/-- Blocks further in are closed, and those around a line stay. -/
theorem countdown_within {depth outer : Nat} (within : outer ≤ depth) :
    ((countdown depth).takeWhile (outer < ·)).length = depth - outer ∧
      (countdown depth).dropWhile (outer < ·) = countdown outer := by
  induction depth with
  | zero =>
    obtain rfl := Nat.le_zero.1 within
    exact ⟨rfl, rfl⟩
  | succ depth ih =>
    by_cases same : outer = depth + 1
    · subst same
      rw [countdown, List.takeWhile_cons_of_neg (by simp), List.dropWhile_cons_of_neg (by simp)]
      exact ⟨(Nat.sub_self _).symm, rfl⟩
    · have inner : outer ≤ depth := by omega
      obtain ⟨closed, left⟩ := ih inner
      rw [countdown, List.takeWhile_cons_of_pos (by simp; omega),
        List.dropWhile_cons_of_pos (by simp; omega), List.length_cons, closed]
      exact ⟨by omega, left⟩

theorem tokens_of_advance {lexer next : Lexer} (step : lexer.advance = .ok (some next)) :
    lexer.tokens = next.tokens := by
  rw [tokens]
  split
  · rename_i found
    cases step.symm.trans found
  · rename_i found
    cases step.symm.trans found
  · rename_i found
    cases step.symm.trans found
    rfl

theorem tokens_of_end {lexer : Lexer} (step : lexer.advance = .ok none) :
    lexer.tokens = .ok lexer.finish := by
  rw [tokens]
  split
  · rename_i found
    cases step.symm.trans found
  · rfl
  · rename_i found
    cases step.symm.trans found

theorem continueLine_token {lexer : Lexer} (inside : lexer.atLineStart = false) {token : Token}
    (rereads : token.Rereads) {blank : Char} (apart : blank = ' ' ∨ blank = '\n') {rest : List Char}
    (ahead : lexer.scanner.rest.dropWhile Text.isBlankInLine = token.written ++ blank :: rest) :
    ∃ next : Lexer, lexer.advance = .ok (some next) ∧ next.scanner.rest = blank :: rest ∧
      next.depths = lexer.depths ∧ next.atLineStart = false ∧
      next.emitted.map Token.bare = token.bare :: lexer.emitted.map Token.bare := by
  obtain ⟨first, others, written, solid, comment, read⟩ := rereads
  have line : first ≠ '\n' := by
    rintro rfl
    cases solid
  obtain ⟨span, behind, found⟩ := read blank rest lexer.skipBlanks.scanner.position apart
  have here : lexer.skipBlanks.scanner.rest = first :: (others ++ blank :: rest) := by
    change lexer.scanner.rest.dropWhile Text.isBlankInLine = _
    rw [ahead, written, List.cons_append]
  rw [← here] at found
  refine ⟨{ lexer.skipBlanks with
      scanner := ⟨blank :: rest, behind⟩
      emitted := { token with span := span } :: lexer.emitted }, ?_, rfl, rfl, inside, rfl⟩
  rw [advance, inside, continueLine]
  simp only [Bool.false_eq_true, if_false]
  split
  · rename_i other
    cases other.symm.trans here
  · rename_i other
    cases other.symm.trans here
    exact absurd rfl line
  · rename_i other
    cases other.symm.trans here
    exact absurd rfl comment
  · rename_i other
    cases other.symm.trans here
    have same : Token.read first lexer.skipBlanks.scanner = _ := found
    rw [same]
    rfl

theorem continueLine_newline {lexer : Lexer} (inside : lexer.atLineStart = false)
    {rest : List Char} (ahead : lexer.scanner.rest = '\n' :: rest)
    (something : ∃ last others, lexer.emitted.map Token.bare = last :: others ∧ last.kind ≠ .newline) :
    ∃ next : Lexer, lexer.advance = .ok (some next) ∧ next.scanner.rest = rest ∧
      next.depths = lexer.depths ∧ next.atLineStart = true ∧
      next.emitted.map Token.bare = layout .newline :: lexer.emitted.map Token.bare := by
  have here : lexer.skipBlanks.scanner.rest = '\n' :: rest := by
    change lexer.scanner.rest.dropWhile Text.isBlankInLine = _
    rw [ahead, List.dropWhile_cons_of_neg (by decide)]
  have ended (span : Span) : lexer.skipBlanks.endLine span =
      { lexer.skipBlanks with emitted := ⟨.newline, none, span⟩ :: lexer.emitted } := by
    obtain ⟨last, others, emitted, other⟩ := something
    obtain ⟨token, before, same, rfl, rfl⟩ := List.map_eq_cons_iff.1 emitted
    have different : token.kind ≠ .newline := other
    have kept : lexer.skipBlanks.emitted = token :: before := same
    simp only [endLine, kept, different, if_false, same]
  refine ⟨{ lexer.skipBlanks with
      scanner := lexer.skipBlanks.scanner.advance
      emitted := ⟨.newline, none, .single lexer.skipBlanks.scanner.position⟩ :: lexer.emitted
      atLineStart := true }, ?_, ?_, rfl, rfl, rfl⟩
  · rw [advance, inside, continueLine]
    simp only [Bool.false_eq_true, if_false, ended]
    split
    · rename_i found
      cases found.symm.trans here
    · rfl
    · rename_i found
      cases found.symm.trans here
    · rename_i different _ found
      cases found.symm.trans here
      exact absurd rfl different
  · simp only [Scanner.advance, here]

theorem tokens_line {tokens : List Token} (some_ : tokens ≠ [])
    (rereads : ∀ token ∈ tokens, token.Rereads ∧ token.kind ≠ .newline) {rest : List Char}
    {lexer : Lexer} (inside : lexer.atLineStart = false)
    (ahead : lexer.scanner.rest.dropWhile Text.isBlankInLine =
      Token.spaced tokens ++ '\n' :: rest) :
    ∃ next : Lexer, lexer.tokens = next.tokens ∧ next.scanner.rest = rest ∧
      next.depths = lexer.depths ∧ next.atLineStart = true ∧
      next.emitted.map Token.bare =
        layout .newline :: (tokens.reverse.map Token.bare ++ lexer.emitted.map Token.bare) := by
  -- a blank stands behind each token but the last, and the end of the line behind that one
  induction tokens generalizing lexer with
  | nil => exact absurd rfl some_
  | cons token others ih =>
    obtain ⟨again, kind⟩ := rereads token List.mem_cons_self
    cases others with
    | nil =>
      obtain ⟨middle, step, left, depths, still, emitted⟩ :=
        continueLine_token inside again (.inr rfl) ahead
      obtain ⟨next, last, behind, kept, start, ended⟩ :=
        continueLine_newline still left ⟨token.bare, _, emitted, kind⟩
      refine ⟨next, (tokens_of_advance step).trans (tokens_of_advance last), behind,
        kept.trans depths, start, ?_⟩
      rw [ended, emitted]
      rfl
    | cons second others =>
      rw [Token.spaced, List.append_assoc, List.cons_append] at ahead
      · obtain ⟨middle, step, left, depths, still, emitted⟩ :=
          continueLine_token inside again (.inl rfl) ahead
        obtain ⟨first, _, written, solid, -⟩ := (rereads second (by simp)).1
        have further : middle.scanner.rest.dropWhile Text.isBlankInLine =
            Token.spaced (second :: others) ++ '\n' :: rest := by
          rw [left, List.dropWhile_cons_of_pos (by decide)]
          obtain ⟨tail, begins⟩ := Token.spaced_cons written others
          rw [begins, List.cons_append, List.dropWhile_cons_of_neg]
          simp [Text.isBlankInLine, solid]
        obtain ⟨next, same, behind, kept, start, ended⟩ := ih (List.cons_ne_nil _ _)
          (fun other inside => rereads other (List.mem_cons_of_mem _ inside)) still further
        refine ⟨next, (tokens_of_advance step).trans same, behind, kept.trans depths, start, ?_⟩
        simp only [ended, emitted, List.reverse_cons, List.map_append, List.map_cons, List.map_nil,
          List.append_assoc, List.cons_append, List.nil_append]
      · simp

/-- The tabs in front of a line say how many blocks are open. -/
theorem startLine_eq {lexer : Lexer} {depth : Nat} {first : Char} {tail : List Char}
    (solid : Text.isBlank first = false) (comment : first ≠ '#')
    (ahead : lexer.scanner.rest = List.replicate depth '\t' ++ first :: tail) :
    ∃ content span, content.rest = first :: tail ∧
      lexer.startLine =
        indentTo { lexer with scanner := content, atLineStart := false } depth span := by
  have tab : (first == '\t') = false := by
    rw [beq_eq_false_iff_ne]
    rintro rfl
    cases solid
  have line : first ≠ '\n' := by
    rintro rfl
    cases solid
  have blank : Text.isBlankInLine first = false := by simp [Text.isBlankInLine, solid]
  have tabs : ∀ character ∈ List.replicate depth '\t', (character == '\t') = true := by
    intro character inside
    obtain ⟨-, rfl⟩ := List.mem_replicate.1 inside
    rfl
  obtain ⟨run, left⟩ := Token.run_eq tabs tab tail
  rw [← ahead] at run left
  have content : ((lexer.scanner.skipWhile (· == '\t')).skipWhile Text.isBlankInLine).rest =
      first :: tail := by
    simp only [Scanner.skipWhile, left]
    rw [List.dropWhile_cons_of_neg (by simp [blank])]
  -- behind the tabs stands the first character of the line, so no blank is left that could be stray
  have clean : (lexer.scanner.skipWhile (· == '\t')).run Text.isBlankInLine = [] := by
    simp only [Scanner.run, Scanner.skipWhile, left]
    rw [List.takeWhile_cons_of_neg (by simp [blank])]
  refine ⟨_, ⟨lexer.scanner.position,
    ((lexer.scanner.skipWhile (· == '\t')).skipWhile Text.isBlankInLine).position⟩, content, ?_⟩
  rw [startLine]
  dsimp only
  split
  · rename_i found
    cases found.symm.trans content
  · rename_i found
    cases found.symm.trans content
    exact absurd rfl line
  · rename_i found
    cases found.symm.trans content
    exact absurd rfl comment
  · rw [if_neg (by simp [clean]), Scanner.run, run, List.length_replicate]

/-- A line that is not further in closes the blocks that it stands outside of. -/
theorem indentTo_within (lexer : Lexer) {depth outer : Nat} (within : outer ≤ depth)
    (depths : lexer.depths = countdown depth) (first : lexer.emitted = [] → outer = 0) (span : Span) :
    lexer.indentTo outer span = .ok { lexer with
      depths := countdown outer
      emitted := List.replicate (depth - outer) ⟨.dedent, none, span⟩ ++ lexer.emitted } := by
  obtain ⟨closed, left⟩ := countdown_within within
  have here : lexer.depth = depth := by rw [Lexer.depth, depths, headD_countdown]
  have begun : ¬(lexer.emitted.isEmpty ∧ 0 < outer) := by
    rintro ⟨empty, deep⟩
    have := first (List.isEmpty_iff.1 empty)
    omega
  rw [indentTo, if_neg begun, here, if_neg (by omega), if_neg (by omega), depths]
  dsimp only
  rw [left, if_pos (headD_countdown outer), List.map_const', closed]

theorem indentTo_further (lexer : Lexer) {depth outer : Nat} (within : outer ≤ depth)
    (depths : lexer.depths = countdown depth) (first : lexer.emitted = [] → outer = 0) (span : Span) :
    ∃ next : Lexer, lexer.indentTo outer span = .ok next ∧ next.scanner = lexer.scanner ∧
      next.depths = countdown outer ∧ next.atLineStart = lexer.atLineStart ∧
      next.emitted.map Token.bare =
        List.replicate (depth - outer) (layout .dedent) ++ lexer.emitted.map Token.bare := by
  refine ⟨_, lexer.indentTo_within within depths first span, rfl, rfl, rfl, ?_⟩
  rw [List.map_append, List.map_replicate]
  rfl

/-- A line one step further in opens a block. -/
theorem indentTo_next (lexer : Lexer) {depth : Nat} (depths : lexer.depths = countdown depth)
    (begun : lexer.emitted ≠ []) (span : Span) :
    lexer.indentTo (depth + 1) span = .ok { lexer with
      depths := countdown (depth + 1)
      emitted := ⟨.indent, none, span⟩ :: lexer.emitted } := by
  have here : lexer.depth = depth := by rw [Lexer.depth, depths, headD_countdown]
  rw [indentTo, if_neg (by simp [begun]), here, if_pos rfl, depths]
  rfl

theorem indentTo_deeper (lexer : Lexer) {depth : Nat} (depths : lexer.depths = countdown depth)
    (begun : lexer.emitted ≠ []) (span : Span) :
    ∃ next : Lexer, lexer.indentTo (depth + 1) span = .ok next ∧ next.scanner = lexer.scanner ∧
      next.depths = countdown (depth + 1) ∧ next.atLineStart = lexer.atLineStart ∧
      next.emitted.map Token.bare = layout .indent :: lexer.emitted.map Token.bare :=
  ⟨_, lexer.indentTo_next depths begun span, rfl, rfl, rfl, rfl⟩

theorem tokens_done {lexer : Lexer} (start : lexer.atLineStart = true) (spent : lexer.scanner.rest = [])
    {depth : Nat} (depths : lexer.depths = countdown depth)
    (ended : ∀ last ∈ lexer.emitted.head?, last.kind = .newline) :
    ∃ tokens, lexer.tokens = .ok tokens ∧ tokens.map Token.bare =
      (lexer.emitted.map Token.bare).reverse ++
        (List.replicate depth (layout .dedent) ++ [layout .endOfProgram]) := by
  obtain ⟨⟨rest, position⟩, _, emitted, _⟩ := lexer
  cases spent
  cases start
  cases depths
  have first : advance ⟨⟨[], position⟩, countdown depth, emitted, true⟩ =
      .ok (some ⟨⟨[], position⟩, countdown depth, emitted, false⟩) := rfl
  have last : advance ⟨⟨[], position⟩, countdown depth, emitted, false⟩ = .ok none := rfl
  refine ⟨_, (tokens_of_advance first).trans (tokens_of_end last), ?_⟩
  have closed : ∀ span, endLine ⟨⟨[], position⟩, countdown depth, emitted, false⟩ span =
      ⟨⟨[], position⟩, countdown depth, emitted, false⟩ := by
    intro span
    cases emitted with
    | nil => rfl
    | cons token before =>
      have newline : token.kind = .newline := ended token rfl
      simp only [endLine, newline, if_true]
  have dedents : ((countdown depth).map fun _ => Token.structural .dedent position).map Token.bare =
      List.replicate depth (layout .dedent) := by
    rw [List.map_map]
    exact List.map_const'.trans (by rw [length_countdown]; rfl)
  unfold finish
  dsimp only
  rw [show skipBlanks ⟨⟨[], position⟩, countdown depth, emitted, false⟩ =
    ⟨⟨[], position⟩, countdown depth, emitted, false⟩ from rfl, closed]
  dsimp only
  rw [List.map_append, List.map_append, dedents, List.map_reverse, List.append_assoc]
  rfl

end Lexer

open Lexer (countdown)

theorem Line.tokens_eq {line : Line} (writable : line.Writable)
    (rereads : ∀ token ∈ line.tokens, token.Rereads) {lexer : Lexer}
    (start : lexer.atLineStart = true) {rest : List Char}
    (ahead : lexer.scanner.rest = line.written ++ rest) (depth : Nat) (opening : List Token)
    (indents : ∀ (content : Scanner) (span : Span), ∃ next : Lexer,
      Lexer.indentTo { lexer with scanner := content, atLineStart := false } line.depth span =
        .ok next ∧ next.scanner = content ∧ next.depths = countdown depth ∧
      next.atLineStart = false ∧
      next.emitted.map Token.bare = opening ++ lexer.emitted.map Token.bare) :
    ∃ next : Lexer, lexer.tokens = next.tokens ∧ next.scanner.rest = rest ∧
      next.depths = countdown depth ∧ next.atLineStart = true ∧
      next.emitted.map Token.bare = layout .newline ::
        (line.tokens.reverse ++ (opening ++ lexer.emitted.map Token.bare)) := by
  obtain ⟨token, others, split⟩ := List.exists_cons_of_ne_nil writable.1
  obtain ⟨first, _, written, solid, comment, -⟩ := rereads token (split ▸ List.mem_cons_self)
  obtain ⟨tail, begins⟩ := Token.spaced_cons written others
  rw [← split] at begins
  have line_eq : line.written ++ rest =
      List.replicate line.depth '\t' ++ first :: (tail ++ '\n' :: rest) := by
    rw [Line.written, begins]
    simp
  obtain ⟨content, span, left, entered⟩ :=
    Lexer.startLine_eq solid comment (ahead.trans line_eq)
  obtain ⟨middle, done, stands, depths, inside, emitted⟩ := indents content span
  have step : lexer.advance = .ok (some middle) := by
    rw [Lexer.advance, if_pos start, entered, done]
    rfl
  have here : middle.scanner.rest.dropWhile Text.isBlankInLine =
      Token.spaced line.tokens ++ '\n' :: rest := by
    rw [stands, left, begins, List.dropWhile_cons_of_neg (by simp [Text.isBlankInLine, solid])]
    rfl
  obtain ⟨next, same, behind, kept, again, ended⟩ := Lexer.tokens_line writable.1
    (fun token inside => ⟨rereads token inside, (writable.2 token inside).kind_ne.1⟩) inside here
  have bare : line.tokens.reverse.map Token.bare = line.tokens.reverse := by
    refine (List.map_congr_left fun token inside => ?_).trans (List.map_id _)
    exact (writable.2 token (List.mem_reverse.1 inside)).bare_eq
  refine ⟨next, (Lexer.tokens_of_advance step).trans same, behind, kept.trans depths, again, ?_⟩
  rw [ended, bare, emitted]

/-- What is read behind a line comes behind its tokens. The last token before it is the end of the line,
whatever stood on it. -/
theorem Line.tokens_behind {line : Line} {lines : List Line} {words opening : List Token}
    {lexer next : Lexer} (same : lexer.tokens = next.tokens)
    (left : next.emitted.map Token.bare = layout .newline ::
      (line.tokens.reverse ++ (opening ++ lexer.emitted.map Token.bare)))
    (others : (∀ last ∈ next.emitted.head?, last.kind = .newline) →
      (next.emitted = [] → Line.Shallow 0 lines) → ∃ tokens, next.tokens = .ok tokens ∧
        tokens.map Token.bare =
          (next.emitted.map Token.bare).reverse ++ (words ++ [layout .endOfProgram])) :
    ∃ tokens, lexer.tokens = .ok tokens ∧ tokens.map Token.bare =
      (lexer.emitted.map Token.bare).reverse ++
        (opening.reverse ++ (line.tokens ++ layout .newline :: words) ++ [layout .endOfProgram]) := by
  obtain ⟨token, before, emitted, bare, -⟩ := List.map_eq_cons_iff.1 left
  have newline : token.kind = .newline := congrArg Token.kind bare
  rw [emitted] at others
  obtain ⟨tokens, read, words⟩ := others (by simpa using newline) (fun none => nomatch none)
  refine ⟨tokens, same.trans read, ?_⟩
  rw [words, ← emitted, left]
  simp

theorem Laid.tokens {depth : Nat} {lines : List Line} {words : List Token}
    (laid : Laid depth lines words) (rereads : ∀ line ∈ lines, ∀ token ∈ line.tokens, token.Rereads)
    {lexer : Lexer} (start : lexer.atLineStart = true)
    (ahead : lexer.scanner.rest = lines.flatMap Line.written)
    (depths : lexer.depths = countdown depth)
    (ended : ∀ last ∈ lexer.emitted.head?, last.kind = .newline)
    (first : lexer.emitted = [] → Line.Shallow 0 lines) :
    ∃ tokens, lexer.tokens = .ok tokens ∧ tokens.map Token.bare =
      (lexer.emitted.map Token.bare).reverse ++ (words ++ [layout .endOfProgram]) := by
  -- only the first line has nothing before it, and it stands outside of all blocks
  induction laid generalizing lexer with
  | done depth => exact Lexer.tokens_done start ahead depths ended
  | @further depth line lines words within writable laid ih =>
    have shallow : lexer.emitted = [] → line.depth = 0 := fun none =>
      Nat.le_zero.1 (first none line rfl)
    obtain ⟨next, same, behind, kept, again, left⟩ := line.tokens_eq writable
      (rereads line List.mem_cons_self) start ahead line.depth
      (List.replicate (depth - line.depth) (layout .dedent))
      fun content span => Lexer.indentTo_further { lexer with scanner := content, atLineStart := false }
        within depths shallow span
    have whole := Line.tokens_behind same left
      (ih (fun line inside => rereads line (List.mem_cons_of_mem _ inside)) again behind kept)
    rw [List.reverse_replicate] at whole
    exact whole
  | @deeper depth line lines words opened writable laid ih =>
    have begun : lexer.emitted ≠ [] := by
      intro none
      have shallow := first none line rfl
      omega
    obtain ⟨next, same, behind, kept, again, left⟩ := line.tokens_eq writable
      (rereads line List.mem_cons_self) start ahead line.depth [layout .indent] fun content span => by
        rw [opened]
        exact Lexer.indentTo_deeper { lexer with scanner := content, atLineStart := false } depths begun
          span
    exact Line.tokens_behind same left
      (ih (fun line inside => rereads line (List.mem_cons_of_mem _ inside)) again behind kept)

end TabScript
