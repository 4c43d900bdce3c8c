import TabScript.Proofs.Failable
import TabScript.Proofs.Lossless.Tokens
import TabScript.Proofs.Pointing.Lines

/-! Where tokens stand, and the faults that are found in characters.

A token that is read begins at a character, and so does what is refused. The end of a line that the end of
the text stands in for has something in front of it. Only the blocks that are closed at the end of the text
and the end of the program may stand where there is no line any more. -/

set_option autoImplicit false

namespace TabScript

variable {source passed : List Char}

structure Fault.Sited (source : List Char) (fault : Fault) : Prop where
  early : fault.cause.kind.isCompileTime = true
  points : fault.span.PointsInto source

theorem Position.line_behind_append {run : List Char} (inLine : '\n' ∉ run) :
    (behind (passed ++ run)).line = (behind passed).line := by
  simp only [behind, List.count_append, List.count_eq_zero.2 inLine, Nat.add_zero]

theorem Span.PointsInto.further {start stop later : Position}
    (points : PointsInto source ⟨start, stop⟩) (further : stop ≤ later) :
    PointsInto source ⟨start, later⟩ :=
  ⟨⟨Position.le_trans points.forward further, points.counted⟩, points.within⟩

namespace Token

variable {scanner behind : Scanner} {token : Token} {first : Char} {rest : List Char} {fault : Fault}

theorem sited_readTextBody {quote : Char} {start : Position} {input before : List Char}
    {position : Position} {sofar : List Char} (split : source = before ++ input)
    (place : position = .behind before) (begun : Span.PointsInto source ⟨start, position⟩)
    (failed : readTextBody quote start input position sofar = .error fault) : fault.Sited source := by
  -- a text that is not closed is refused as a whole, a control character in it at its own place
  fun_induction readTextBody quote start input position sofar generalizing before with
  | case1 =>
    cases failed
    exact ⟨rfl, begun⟩
  | case2 =>
    cases failed
    exact ⟨rfl, begun⟩
  | case3 => cases failed
  | case4 position =>
    cases failed
    exact ⟨rfl, begun.further (Position.before_after position _).le⟩
  | case5 position sofar escaped behind notLine notQuote ih =>
    have further : source = (before ++ ['\\', escaped]) ++ behind := by
      rw [split, List.append_assoc]
      rfl
    refine ih further ?_ ?_ failed
    · rw [place, ← Position.afterAll_behind]
      rfl
    · refine begun.further (Position.le_trans (Position.before_after position '\\').le ?_)
      exact (Position.before_after _ escaped).le
  | case6 character rest position =>
    cases failed
    rw [place]
    exact ⟨rfl, Span.pointsInto_single split (List.cons_ne_nil _ _)⟩
  | case7 character rest position sofar notLine notQuote notEscape visible ih =>
    have further : source = (before ++ [character]) ++ rest := by
      rw [split, List.append_assoc]
      rfl
    refine ih further ?_ ?_ failed
    · rw [place, Position.after_behind]
    · exact begun.further (Position.before_after position character).le

theorem sited_read (stands : Scanner.Stands source passed scanner) (shape : scanner.rest = first :: rest)
    (failed : Token.read first scanner = .error fault) : fault.Sited source := by
  have some_ : scanner.rest ≠ [] := by
    rw [shape]
    exact List.cons_ne_nil _ _
  unfold Token.read at failed
  split at failed
  · have opened := stands.advance shape
    unfold readText at failed
    cases body : readTextBody first scanner.position scanner.advance.rest scanner.advance.position []
      with
    | error other =>
      simp only [body, bind, Except.bind, Except.error.injEq] at failed
      subst failed
      refine sited_readTextBody opened.split opened.place ?_ body
      rw [stands.place, opened.place]
      exact Span.pointsInto_from stands.split some_ (Position.behind_le _ _)
    | ok result => simp [body, bind, Except.bind, pure, Except.pure] at failed
  split at failed
  · -- a number is refused at the character that it runs into
    have whole := stands.skipWhile Char.isDigit
    obtain ⟨split_, place, -⟩ := readFraction_spec (scanner.skipWhile Char.isDigit)
    have onward := whole.onward split_ place
    unfold readNumber at failed
    dsimp only at failed
    split at failed
    · rename_i runs
      cases failed
      refine ⟨rfl, ?_⟩
      change (Span.single (readFraction (scanner.skipWhile Char.isDigit)).2.position).PointsInto source
      rw [onward.place]
      refine Span.pointsInto_single onward.split fun spent => ?_
      rw [Scanner.peek, spent] at runs
      cases runs
    · cases failed
  split at failed
  · cases failed
  split at failed
  · cases failed
  split at failed
  · cases failed
  · cases failed
    refine ⟨rfl, ?_⟩
    change (Span.single scanner.position).PointsInto source
    rw [stands.place]
    exact Span.pointsInto_single stands.split some_

theorem Lexeme.inLine {after word : List Char} {kind : TokenKind} {literal : Literal}
    (lexeme : Lexeme after kind literal word) : ∀ last ∈ word.getLast?, last ≠ '\n' := by
  intro last ends feed
  subst feed
  have inside := List.mem_of_getLast? ends
  cases lexeme with
  | truth truth => cases truth <;> exact absurd inside (by decide)
  | word _ start parts =>
    rcases List.mem_cons.1 inside with rfl | further
    · cases start
    · cases parts _ further
  | number some_ digits =>
    unfold Number.pointed at inside
    split at inside
    · rw [List.append_nil] at inside
      cases digits _ (List.mem_append_left _ inside)
    · rcases List.mem_append.1 inside with before | behind
      · cases digits _ (List.mem_append_left _ before)
      · rcases List.mem_cons.1 behind with same | behind
        · cases same
        · cases digits _ (List.mem_append_right _ behind)
  | text quote_ =>
    rw [← List.cons_append, List.getLast?_concat] at ends
    cases ends
    rcases quote_ with same | same <;> cases same
  | symbol known =>
    have all : ∀ symbol ∈ symbols, '\n' ∉ symbol := by decide
    exact all _ known inside

end Token

namespace Scanner

variable {scanner : Scanner}

theorem Stands.advances (stands : Stands source passed scanner) :
    ∃ onward, Stands source onward scanner.advance := by
  cases shape : scanner.rest with
  | nil =>
    have stays : scanner.advance = scanner := by rw [Scanner.advance, shape]
    exact ⟨passed, by rw [stays]; exact stands⟩
  | cons character rest => exact ⟨_, stands.advance shape⟩

theorem rest_ne_nil {test : Char → Bool} (some_ : (scanner.skipWhile test).rest ≠ []) :
    scanner.rest ≠ [] := by
  intro spent
  rw [Scanner.skipWhile, spent] at some_
  exact some_ rfl

end Scanner

namespace Lexer

open Scanner

variable {lexer next : Lexer} {fault : Fault}

/-- Every token so far begins on a line, and so does the place of a token to come, as long as the line that was
begun last has no token for its end. -/
structure Placed (source passed : List Char) (lexer : Lexer) : Prop where
  stands : Stands source passed lexer.scanner
  points : ∀ token ∈ lexer.emitted, token.span.PointsInto source
  ended : lexer.atLineStart = true → ∀ last ∈ lexer.emitted.head?, last.kind = .newline
  within : ∀ last ∈ lexer.emitted.head?, last.kind ≠ .newline →
    (Position.behind passed).line ≤ (Source.lines source).length

theorem inLine_of_blank {run : List Char}
    (blank : ∀ character ∈ run, Text.isBlankInLine character = true) : '\n' ∉ run := by
  intro inside
  cases blank _ inside

theorem Placed.skipBlanks (placed : lexer.Placed source passed) :
    ∃ onward, lexer.skipBlanks.Placed source onward := by
  have inLine : '\n' ∉ lexer.scanner.run Text.isBlankInLine :=
    inLine_of_blank fun character inside => of_mem_run Text.isBlankInLine inside
  refine ⟨_, placed.stands.skipWhile Text.isBlankInLine, placed.points, placed.ended, ?_⟩
  intro last top open_
  rw [Position.line_behind_append inLine]
  exact placed.within last top open_

theorem points_endLine (points : ∀ token ∈ lexer.emitted, token.span.PointsInto source) (span : Span)
    (here : ∀ last ∈ lexer.emitted.head?, last.kind ≠ .newline → span.PointsInto source) :
    (∀ token ∈ (lexer.endLine span).emitted, token.span.PointsInto source) ∧
      ∀ last ∈ (lexer.endLine span).emitted.head?, last.kind = .newline := by
  unfold endLine
  split
  · rename_i nothing
    rw [nothing]
    simp
  · rename_i last others shape
    split
    · rename_i newline
      refine ⟨points, fun top found => ?_⟩
      rw [shape] at found
      cases found
      exact newline
    · rename_i other
      refine ⟨fun token inside => ?_, fun top found => ?_⟩
      · rcases List.mem_cons.1 inside with rfl | inside
        · exact here last (by rw [shape]; rfl) other
        · exact points token inside
      · cases found
        rfl

/-- The tokens that open or close blocks stand in front of a row. -/
theorem points_indentTo (points : ∀ token ∈ lexer.emitted, token.span.PointsInto source) (depth : Nat)
    {span : Span} (here : span.PointsInto source) :
    Verdict (fun next => ∀ token ∈ next.emitted, token.span.PointsInto source) (Fault.Sited source)
      (lexer.indentTo depth span) := by
  unfold indentTo
  split
  · exact .error ⟨rfl, here⟩
  split
  · exact .ok (List.forall_mem_cons.2 ⟨here, points⟩)
  split
  · exact .error ⟨rfl, here⟩
  dsimp only
  split
  · refine .ok (List.forall_mem_append.2 ⟨fun token closed => ?_, points⟩)
    obtain ⟨_, -, rfl⟩ := List.mem_map.1 closed
    exact here
  · exact .error ⟨rfl, here⟩

/-- The white space in front of a row, and the row itself, stand on a line. -/
theorem Placed.startLine (placed : lexer.Placed source passed) (start : lexer.atLineStart = true) :
    Verdict (fun next => ∃ onward, next.Placed source onward) (Fault.Sited source) lexer.startLine := by
  have content := placed.stands.skipWhile Text.isBlankInLine
  have ended := placed.ended start
  -- no line was begun without its end, so there is nothing to be said of the line
  have idle : ∀ {onward : List Char}, ∀ last ∈ lexer.emitted.head?, last.kind ≠ .newline →
      (Position.behind onward).line ≤ (Source.lines source).length :=
    fun last top open_ => absurd (ended last top) open_
  unfold Lexer.startLine
  dsimp only
  rw [skipWhile_margin]
  split
  · exact .ok ⟨_, content, placed.points, fun _ => ended, idle⟩
  · rename_i rest shape
    exact .ok ⟨_, content.advance shape, placed.points, fun _ => ended, idle⟩
  · obtain ⟨onward, behind⟩ := (content.skipWhile (· != '\n')).advances
    exact .ok ⟨onward, behind, placed.points, fun _ => ended, idle⟩
  · rename_i first rest _ _ shape
    have some_ : (lexer.scanner.skipWhile Text.isBlankInLine).rest ≠ [] := by
      rw [shape]
      exact List.cons_ne_nil _ _
    split
    · -- indented by something else than tabs, which begins behind them
      have indented := placed.stands.skipWhile (· == '\t')
      have further : ((lexer.scanner.skipWhile (· == '\t')).skipWhile Text.isBlankInLine).rest ≠ [] := by
        rwa [skipWhile_margin]
      refine .error ⟨rfl, ?_⟩
      change (Span.single (lexer.scanner.skipWhile (· == '\t')).position).PointsInto source
      rw [indented.place]
      exact Span.pointsInto_single indented.split (rest_ne_nil further)
    · have here : Span.PointsInto source
          ⟨lexer.scanner.position, (lexer.scanner.skipWhile Text.isBlankInLine).position⟩ := by
        rw [placed.stands.place, content.place]
        exact Span.pointsInto_from placed.stands.split (rest_ne_nil some_) (Position.behind_le _ _)
      let row : Lexer :=
        ⟨lexer.scanner.skipWhile Text.isBlankInLine, lexer.depths, lexer.emitted, false⟩
      have points : ∀ token ∈ row.emitted, token.span.PointsInto source := placed.points
      have verdict := points_indentTo points (lexer.scanner.run (· == '\t')).length here
      cases done : row.indentTo (lexer.scanner.run (· == '\t')).length
          ⟨lexer.scanner.position, (lexer.scanner.skipWhile Text.isBlankInLine).position⟩ with
      | error fault => exact .error (verdict.of_error done)
      | ok next =>
        obtain ⟨place, inside⟩ := rest_indentTo done
        refine .ok ⟨passed ++ lexer.scanner.run Text.isBlankInLine, by rw [place]; exact content,
          verdict.of_ok done, fun begins => ?_, fun _ _ _ => Source.line_behind_le content.split some_⟩
        cases inside.symm.trans begins

theorem Placed.token (placed : lexer.Placed source passed) (inside : lexer.atLineStart = false)
    {first : Char} {rest : List Char} (shape : lexer.scanner.rest = first :: rest) {token : Token}
    {behind : Scanner} (read : Token.read first lexer.scanner = .ok (token, behind)) :
    ∃ onward, Placed source onward
      { lexer with scanner := behind, emitted := token :: lexer.emitted } := by
  obtain ⟨word, spelled⟩ := Token.spelled_read shape read
  obtain ⟨literal, -, lexeme⟩ := spelled.lexeme
  have stands := placed.stands.onward spelled.split spelled.place
  refine ⟨_, stands, List.forall_mem_cons.2 ⟨?_, placed.points⟩, fun begins => ?_, fun _ _ _ => ?_⟩
  · rw [spelled.span, stands.place, placed.stands.place]
    refine Span.pointsInto_from placed.stands.split ?_ (Position.behind_le _ _)
    rw [shape]
    exact List.cons_ne_nil _ _
  · cases inside.symm.trans begins
  · obtain ⟨front, last, rfl⟩ := List.eq_nil_or_concat word |>.resolve_left lexeme.ne_nil
    rw [List.concat_eq_append] at lexeme stands ⊢
    have feed := lexeme.inLine last List.getLast?_concat
    rw [← List.append_assoc, Position.line_behind_append (by simpa using feed.symm)]
    have split := stands.split
    rw [← List.append_assoc, List.append_assoc] at split
    exact Source.line_behind_le split (by simp)

theorem Placed.continueLine (placed : lexer.Placed source passed) (inside : lexer.atLineStart = false) :
    Verdict (fun step => ∀ next ∈ step, ∃ onward, Placed source onward next) (Fault.Sited source)
      lexer.continueLine := by
  obtain ⟨onward, here⟩ := placed.skipBlanks
  unfold Lexer.continueLine
  dsimp only
  split
  · exact .ok nofun
  · rename_i rest shape
    have feed : (Span.single lexer.skipBlanks.scanner.position).PointsInto source := by
      rw [here.stands.place]
      refine Span.pointsInto_single here.stands.split ?_
      rw [shape]
      exact List.cons_ne_nil _ _
    obtain ⟨points, ended⟩ := points_endLine here.points _ fun _ _ _ => feed
    refine .ok fun next made => ?_
    cases made
    exact ⟨_, here.stands.advance shape, points, fun _ => ended, fun last top open_ =>
      absurd (ended last top) open_⟩
  · -- no line ends inside of a comment
    refine .ok fun next made => ?_
    cases made
    refine ⟨_, here.stands.skipWhile (· != '\n'), here.points, here.ended, fun last top open_ => ?_⟩
    rw [Position.line_behind_append]
    · exact here.within last top open_
    · intro feed
      have other := of_mem_run (· != '\n') feed
      simp at other
  · rename_i first rest _ _ shape
    cases read : Token.read first lexer.skipBlanks.scanner with
    | error fault => exact .error (Token.sited_read here.stands shape read)
    | ok result =>
      refine .ok fun next made => ?_
      cases made
      exact here.token inside shape read

theorem Placed.advance (placed : lexer.Placed source passed) :
    Verdict (fun step => ∀ next ∈ step, ∃ onward, Placed source onward next) (Fault.Sited source)
      lexer.advance := by
  unfold Lexer.advance
  split
  · rename_i start
    refine (placed.startLine start).bind fun next _ later => .ok fun other same => ?_
    cases same
    exact later
  · rename_i inside
    exact placed.continueLine (Bool.eq_false_iff.2 inside)

theorem Placed.step (placed : lexer.Placed source passed) (goes : lexer.advance = .ok (some next)) :
    ∃ onward, next.Placed source onward :=
  placed.advance.of_ok goes next rfl

end Lexer

/-- The token stands on a line of the text, or it closes what is open at the end of the text. -/
def Token.Placed (source : List Char) (token : Token) : Prop :=
  token.span.PointsInto source ∨
    ((token.kind = .dedent ∨ token.kind = .endOfProgram) ∧ token.span = .point (.behind source))

theorem Lexer.Placed.finish {lexer : Lexer} (placed : lexer.Placed source passed)
    (ended : lexer.advance = .ok none) : ∀ token ∈ lexer.finish, token.Placed source := by
  obtain ⟨onward, here⟩ := placed.skipBlanks
  have spent : lexer.skipBlanks.scanner.rest = [] := rest_of_ended ended
  have whole : source = onward := by rw [here.stands.split, spent, List.append_nil]
  have stop : lexer.skipBlanks.scanner.position = .behind source := by rw [here.stands.place, whole]
  obtain ⟨points, -⟩ := points_endLine here.points (.point lexer.skipBlanks.scanner.position)
    fun last top open_ => by
      rw [here.stands.place]
      exact Span.pointsInto_point (here.within last top open_)
  intro token inside
  unfold Lexer.finish at inside
  simp only [List.mem_append, List.mem_reverse, List.mem_map, List.mem_singleton] at inside
  rcases inside with (read | ⟨_, -, rfl⟩) | rfl
  · exact .inl (points token read)
  · exact .inr ⟨.inl rfl, by rw [stop]; rfl⟩
  · exact .inr ⟨.inr rfl, by rw [stop]; rfl⟩

/-- Every token of a text has its place, and a text without tokens is refused at one of its lines. -/
theorem Lexer.Placed.tokens {lexer : Lexer} (placed : lexer.Placed source passed) :
    Verdict (fun tokens => ∀ token ∈ tokens, token.Placed source) (Fault.Sited source) lexer.tokens := by
  fun_induction Lexer.tokens lexer generalizing passed with
  | case1 lexer fault step => exact .error (placed.advance.of_error step)
  | case2 lexer ended => exact .ok (placed.finish ended)
  | case3 lexer next step ih =>
    obtain ⟨onward, later⟩ := placed.step step
    exact ih later

theorem placed_tokenize (source : String) :
    Verdict (fun tokens => ∀ token ∈ tokens, token.Placed source.toList) (Fault.Sited source.toList)
      (tokenize source) :=
  Lexer.Placed.tokens ⟨Scanner.stands_ofString source, by simp [Lexer.ofString], by simp [Lexer.ofString],
    by simp [Lexer.ofString]⟩

end TabScript
