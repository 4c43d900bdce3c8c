import TabScript.Proofs.Fillers.Drift
import TabScript.Proofs.Pointing.Tokens

/-! What a step of reading depends on.

A token is read from its own characters and the one behind it. So as long as more is left on a line than white
space and a comment, it makes no difference to the next step what stands further on, unless a text is open
where the characters end or a word goes on there. -/

set_option autoImplicit false

namespace TabScript

/-- White space on a line, with or without a comment behind it. -/
inductive Filler : List Char → Prop where
  | blank {blanks : List Char} (all : ∀ character ∈ blanks, Text.isBlankInLine character = true) :
    Filler blanks
  | comment {blanks words : List Char} (all : ∀ character ∈ blanks, Text.isBlankInLine character = true)
    (inLine : '\n' ∉ words) : Filler (blanks ++ '#' :: words)

/-- White space, and the mark that begins a comment. -/
def Text.isBorder (character : Char) : Bool := isBlank character || character == '#'

def Parted (characters more : List Char) : Prop :=
  characters.getLast? = some '\n' ∨ ∀ next ∈ more.head?, Text.isBorder next = true

namespace Parted

variable {word rest more : List Char}

theorem left (parted : Parted (word ++ rest) more) (some_ : rest ≠ []) : Parted rest more := by
  refine parted.imp_left fun ends => ?_
  rwa [List.getLast?_append_of_ne_nil _ some_] at ends

theorem onward (word : List Char) (parted : Parted (word ++ rest) more) (inLine : '\n' ∉ word) :
    Parted rest more := by
  by_cases some_ : rest = []
  · subst some_
    rw [List.append_nil] at parted
    exact parted.imp_left fun ends => absurd (List.mem_of_getLast? ends) inLine
  · exact parted.left some_

theorem border (parted : Parted [] more) : ∀ next ∈ more.head?, Text.isBorder next = true :=
  parted.resolve_left fun ends => nomatch ends

end Parted

namespace Scanner

variable {scanner : Scanner} {more : List Char} {test : Char → Bool}

def extend (scanner : Scanner) (more : List Char) : Scanner := ⟨scanner.rest ++ more, scanner.position⟩

@[simp] theorem rest_extend : (scanner.extend more).rest = scanner.rest ++ more := rfl

@[simp] theorem position_extend : (scanner.extend more).position = scanner.position := rfl

theorem run_append_skipWhile (scanner : Scanner) (test : Char → Bool) :
    scanner.run test ++ (scanner.skipWhile test).rest = scanner.rest :=
  List.takeWhile_append_dropWhile

/-- A run ends where it did if something is left behind it, or what comes does not pass. -/
theorem skipWhile_extend
    (stops : (scanner.skipWhile test).rest = [] → ∀ next ∈ more.head?, test next = false) :
    (scanner.extend more).run test = scanner.run test ∧
      (scanner.extend more).skipWhile test = (scanner.skipWhile test).extend more := by
  obtain ⟨characters, position⟩ := scanner
  simp only [extend, run, skipWhile] at stops ⊢
  suffices same : (characters ++ more).takeWhile test = characters.takeWhile test ∧
      (characters ++ more).dropWhile test = characters.dropWhile test ++ more by
    rw [same.1, same.2]
    exact ⟨rfl, rfl⟩
  clear position
  induction characters with
  | nil =>
    cases more with
    | nil => exact ⟨rfl, rfl⟩
    | cons next more => simp [stops rfl next rfl]
  | cons character characters ih =>
    cases passes : test character with
    | false => simp [passes]
    | true =>
      rw [List.dropWhile_cons_of_pos passes] at stops
      obtain ⟨sameRun, same⟩ := ih stops
      simp [passes, sameRun, same]

theorem advance_extend {character : Char} {rest : List Char} (shape : scanner.rest = character :: rest) :
    (scanner.extend more).advance = scanner.advance.extend more := by
  simp only [advance, extend, shape, List.cons_append]

theorem skipWhile_parted (parted : Parted scanner.rest more)
    (fails : ∀ character, Text.isBorder character = true → test character = false) :
    (scanner.extend more).run test = scanner.run test ∧
      (scanner.extend more).skipWhile test = (scanner.skipWhile test).extend more ∧
      Parted (scanner.skipWhile test).rest more := by
  have inLine : '\n' ∉ scanner.run test := fun inside => by
    have passes := of_mem_run test inside
    rw [fails '\n' rfl] at passes
    cases passes
  rw [← run_append_skipWhile scanner test] at parted
  have behind := parted.onward _ inLine
  have stops : (scanner.skipWhile test).rest = [] → ∀ next ∈ more.head?, test next = false :=
    fun spent next head => fails next ((spent ▸ behind).border next head)
  obtain ⟨sameRun, same⟩ := skipWhile_extend stops
  exact ⟨sameRun, same, behind⟩

end Scanner

namespace Text

theorem isWordPart_of_isBorder {character : Char} (border : isBorder character = true) :
    isWordPart character = false := by
  rcases Bool.or_eq_true_iff.1 border with blank | note
  · exact isWordPart_of_isBlank blank
  · rw [beq_iff_eq.1 note]
    rfl

theorem isDigit_of_isBorder {character : Char} (border : isBorder character = true) :
    character.isDigit = false := by
  have part := isWordPart_of_isBorder border
  rw [Token.isWordPart_cases] at part
  exact (Bool.or_eq_false_iff.1 part).1

theorem isWordStart_of_isBorder {character : Char} (border : isBorder character = true) :
    isWordStart character = false := by
  have part := isWordPart_of_isBorder border
  rw [Token.isWordPart_cases] at part
  exact (Bool.or_eq_false_iff.1 part).2

end Text

namespace Token

variable {scanner : Scanner} {first : Char} {rest more : List Char}

def extend (more : List Char) : Token × Scanner → Token × Scanner :=
  Prod.map id (Scanner.extend · more)

theorem readTextBody_extend {quote : Char} {start : Position} {input : List Char} {position : Position}
    {sofar : List Char}
    (closed : ∀ fault, readTextBody quote start input position sofar = .error fault →
      fault.cause ≠ .endInsideText) :
    readTextBody quote start (input ++ more) position sofar =
      (readTextBody quote start input position sofar).map (Prod.map id (Scanner.extend · more)) := by
  fun_induction readTextBody quote start input position sofar with
  | case1 => exact absurd rfl (closed _ rfl)
  | case2 =>
    rw [readTextBody.eq_def]
    rfl
  | case3 rest position sofar notLine =>
    rw [readTextBody.eq_def]
    simp only [List.cons_append, notLine, if_false, if_true]
    rfl
  | case4 => exact absurd rfl (closed _ rfl)
  | case5 position sofar escaped behind notLine notQuote ih =>
    rw [readTextBody.eq_def quote start ('\\' :: escaped :: behind ++ more)]
    simp only [List.cons_append, notLine, notQuote, if_false, if_true]
    exact ih closed
  | case6 character rest position sofar notLine notQuote notEscape control =>
    rw [readTextBody.eq_def]
    simp only [List.cons_append, notLine, notQuote, notEscape, control, if_false, if_true]
    rfl
  | case7 character rest position sofar notLine notQuote notEscape visible ih =>
    rw [readTextBody.eq_def quote start (character :: rest ++ more)]
    simp only [List.cons_append, notLine, notQuote, notEscape, visible, if_false]
    exact ih closed

theorem readText_extend (shape : scanner.rest = first :: rest) (quote : Char)
    (closed : ∀ fault, readText quote scanner = .error fault → fault.cause ≠ .endInsideText) :
    readText quote (scanner.extend more) = (readText quote scanner).map (extend more) := by
  unfold readText at closed ⊢
  dsimp only at closed ⊢
  have body := @readTextBody_extend more quote scanner.position scanner.advance.rest scanner.advance.position []
    fun fault failed => closed fault (by rw [failed]; rfl)
  rw [Scanner.advance_extend shape, Scanner.rest_extend, Scanner.position_extend, Scanner.position_extend, body]
  cases readTextBody quote scanner.position scanner.advance.rest scanner.advance.position [] <;> rfl

theorem readFraction_extend (parted : Parted scanner.rest more) :
    readFraction (scanner.extend more) =
      ((readFraction scanner).1, (readFraction scanner).2.extend more) := by
  obtain ⟨characters, position⟩ := scanner
  cases characters with
  | nil =>
    -- the next character is no point
    have none_ : ∀ digit rest, more ≠ '.' :: digit :: rest := by
      rintro digit rest rfl
      cases parted.border '.' rfl
    unfold readFraction
    split
    · rename_i digit rest shape
      exact absurd shape (none_ digit rest)
    · rfl
  | cons first others =>
    by_cases point : first = '.'
    · subst point
      have behind : Parted others more := parted.onward ['.'] (by decide)
      cases others with
      | nil =>
        cases more with
        | nil => rfl
        | cons next more =>
          have fails := Text.isDigit_of_isBorder (behind.border next rfl)
          simp only [readFraction, Scanner.extend, List.cons_append, List.nil_append, fails]
          rfl
      | cons digit rest =>
        obtain ⟨run, same, -⟩ := @Scanner.skipWhile_parted ⟨digit :: rest, position.after '.'⟩ _ _ behind
          fun _ => Text.isDigit_of_isBorder
        cases isDigit : digit.isDigit with
        | false =>
          simp only [readFraction, Scanner.extend, List.cons_append, isDigit]
          rfl
        | true =>
          simp only [readFraction, Scanner.extend, List.cons_append, isDigit, Scanner.advance, if_true]
          exact Prod.ext run same
    · simp only [readFraction, Scanner.extend, List.cons_append, List.cons.injEq, point, false_and,
        imp_self, implies_true]

theorem parted_readFraction (parted : Parted scanner.rest more) :
    Parted (readFraction scanner).2.rest more := by
  obtain ⟨split_, -, digits, -⟩ := readFraction_spec scanner
  rw [split_] at parted
  refine parted.onward _ fun inside => ?_
  split at inside
  · cases inside
  · rcases List.mem_cons.1 inside with same | inside
    · cases same
    · cases digits _ inside

theorem readNumber_extend (parted : Parted scanner.rest more) :
    readNumber (scanner.extend more) = (readNumber scanner).map (extend more) := by
  obtain ⟨run, same, whole⟩ := Scanner.skipWhile_parted parted fun _ => Text.isDigit_of_isBorder
  have behind := parted_readFraction whole
  have peek : ((readFraction (scanner.skipWhile Char.isDigit)).2.extend more).peek.any Text.isWordStart =
      (readFraction (scanner.skipWhile Char.isDigit)).2.peek.any Text.isWordStart := by
    generalize (readFraction (scanner.skipWhile Char.isDigit)).2 = fraction at behind
    obtain ⟨characters, position⟩ := fraction
    cases characters with
    | cons first others => rfl
    | nil =>
      cases more with
      | nil => rfl
      | cons next more => exact Text.isWordStart_of_isBorder (behind.border next rfl)
  unfold readNumber
  simp only [run, same, readFraction_extend whole, peek]
  split <;> rfl

theorem readWord_extend (parted : Parted scanner.rest more) :
    readWord (scanner.extend more) = extend more (readWord scanner) := by
  obtain ⟨run, behind, -⟩ := Scanner.skipWhile_parted parted fun _ => Text.isWordPart_of_isBorder
  simp only [readWord, run, behind]
  rfl

theorem readOperator_extend (shape : scanner.rest = first :: rest) (parted : Parted scanner.rest more)
    (inLine : first ≠ '\n') (character : Char) :
    readOperator character (scanner.extend more) = extend more (readOperator character scanner) := by
  obtain ⟨_, position⟩ := scanner
  obtain rfl := shape
  have behind : Parted rest more := parted.onward [first] (by simpa using inLine.symm)
  unfold readOperator
  simp only [Scanner.extend, Scanner.advance, List.cons_append]
  cases rest with
  | nil =>
    cases more with
    | nil => rfl
    | cons next more =>
      have alone : compounds.contains (character, next) = false := by
        refine Bool.eq_false_iff.2 fun compound => ?_
        have solid : ∀ pair ∈ compounds, Text.isBorder pair.2 = false := by decide
        have other := solid _ (List.contains_iff_mem.1 compound)
        rw [behind.border next rfl] at other
        cases other
      simp only [List.nil_append, alone]
      rfl
  | cons second rest =>
    dsimp only [List.cons_append]
    split <;> rfl

theorem read_extend (shape : scanner.rest = first :: rest) (parted : Parted scanner.rest more)
    (inLine : first ≠ '\n')
    (closed : ∀ fault, read first scanner = .error fault → fault.cause ≠ .endInsideText) :
    read first (scanner.extend more) = (read first scanner).map (extend more) := by
  unfold read at closed ⊢
  split
  · rename_i quote
    rw [if_pos quote] at closed
    exact readText_extend shape first closed
  split
  · exact readNumber_extend parted
  split
  · exact congrArg Except.ok (readWord_extend parted)
  split
  · rw [Scanner.advance_extend shape]
    rfl
  split
  · exact congrArg Except.ok (readOperator_extend shape parted inLine first)
  · rfl

end Token

namespace Scanner

variable {scanner : Scanner} {more : List Char}

/-- Behind the white space of a line that goes on stands a token, the end of the line or a comment that ends. -/
theorem head_of_solid (solid : ¬Filler scanner.rest) :
    ∃ first rest, (scanner.skipWhile Text.isBlankInLine).rest = first :: rest ∧
      (first = '#' → '\n' ∈ rest) := by
  have split := run_append_skipWhile scanner Text.isBlankInLine
  have blanks : ∀ character ∈ scanner.run Text.isBlankInLine, Text.isBlankInLine character = true :=
    fun character inside => of_mem_run Text.isBlankInLine inside
  cases shape : (scanner.skipWhile Text.isBlankInLine).rest with
  | nil =>
    rw [shape, List.append_nil] at split
    exact absurd (split ▸ Filler.blank blanks) solid
  | cons first rest =>
    refine ⟨first, rest, rfl, fun note => Classical.not_not.1 fun inLine => solid ?_⟩
    rw [← split, shape, note]
    exact .comment blanks inLine

theorem lineEnd_extend (more : List Char) (inside : '\n' ∈ scanner.rest) :
    (scanner.extend more).skipWhile (· != '\n') = (scanner.skipWhile (· != '\n')).extend more ∧
      ∃ rest, (scanner.skipWhile (· != '\n')).rest = '\n' :: rest := by
  cases shape : (scanner.skipWhile (· != '\n')).rest with
  | nil =>
    have split := run_append_skipWhile scanner (· != '\n')
    rw [shape, List.append_nil] at split
    have passes := of_mem_run (· != '\n') (split ▸ inside)
    simp at passes
  | cons first rest =>
    obtain rfl := Lexer.head?_lineEnd scanner first (by rw [shape]; rfl)
    exact ⟨(skipWhile_extend fun spent => nomatch spent.symm.trans shape).2, rest, rfl⟩

variable (more) (solid : ¬Filler scanner.rest)
include solid

theorem blanks_extend :
    (scanner.extend more).skipWhile Text.isBlankInLine =
      (scanner.skipWhile Text.isBlankInLine).extend more := by
  obtain ⟨first, rest, shape, -⟩ := head_of_solid solid
  exact (skipWhile_extend fun spent => nomatch spent.symm.trans shape).2

/-- The tabs in front of a line, and the white space behind them. -/
theorem margin_extend :
    (scanner.extend more).run (· == '\t') = scanner.run (· == '\t') ∧
      (scanner.extend more).skipWhile (· == '\t') = (scanner.skipWhile (· == '\t')).extend more ∧
      ((scanner.skipWhile (· == '\t')).extend more).run Text.isBlankInLine =
        (scanner.skipWhile (· == '\t')).run Text.isBlankInLine := by
  obtain ⟨first, rest, shape, -⟩ := head_of_solid solid
  rw [← Lexer.skipWhile_margin] at shape
  have some_ := rest_ne_nil (shape ▸ List.cons_ne_nil first rest)
  obtain ⟨run, same⟩ := @skipWhile_extend scanner more _ fun spent => absurd spent some_
  exact ⟨run, same, (skipWhile_extend fun spent => nomatch spent.symm.trans shape).1⟩

end Scanner

namespace Lexer

variable {lexer : Lexer} {more : List Char}

def extend (lexer : Lexer) (more : List Char) : Lexer :=
  { lexer with scanner := lexer.scanner.extend more }

theorem indentTo_extend (depth : Nat) (span : Span) :
    (lexer.extend more).indentTo depth span = (lexer.indentTo depth span).map (extend · more) := by
  unfold indentTo Lexer.depth extend
  dsimp only
  split
  · rfl
  split
  · rfl
  split
  · rfl
  split <;> rfl

variable (solid : ¬Filler lexer.scanner.rest)
include solid

theorem startLine_extend : (lexer.extend more).startLine = lexer.startLine.map (extend · more) := by
  obtain ⟨scanner, depths, emitted, flag⟩ := lexer
  obtain ⟨tabs, indented, run⟩ := Scanner.margin_extend more solid
  obtain ⟨first, rest, shape, note⟩ := Scanner.head_of_solid solid
  have content := Scanner.blanks_extend more solid
  unfold startLine extend
  dsimp only at *
  rw [tabs, indented, run, ← indented, skipWhile_margin, content, skipWhile_margin]
  by_cases comment : first = '#'
  · have inside : '\n' ∈ (scanner.skipWhile Text.isBlankInLine).rest := by
      rw [shape]
      exact List.mem_cons_of_mem _ (note comment)
    obtain ⟨lineEnd, behind, ends⟩ := Scanner.lineEnd_extend more inside
    rw [lineEnd, Scanner.advance_extend ends]
    simp only [Scanner.rest_extend, shape, comment, List.cons_append, Scanner.atEnd, ends]
    rfl
  by_cases feed : first = '\n'
  · rw [Scanner.advance_extend shape]
    simp only [Scanner.rest_extend, shape, feed, List.cons_append]
    rfl
  · simp only [Scanner.rest_extend, shape, List.cons_append, Scanner.position_extend]
    split
    · rw [indented]
      rfl
    · exact @indentTo_extend ⟨scanner.skipWhile Text.isBlankInLine, depths, emitted, false⟩ more _ _

theorem continueLine_extend (parted : Parted lexer.scanner.rest more)
    (closed : ∀ fault, lexer.continueLine = .error fault → fault.cause ≠ .endInsideText) :
    (lexer.extend more).continueLine = lexer.continueLine.map (Option.map (extend · more)) := by
  obtain ⟨scanner, depths, emitted, flag⟩ := lexer
  obtain ⟨first, rest, shape, note⟩ := Scanner.head_of_solid solid
  have content := Scanner.blanks_extend more solid
  rw [← Scanner.run_append_skipWhile scanner Text.isBlankInLine] at parted
  have here := parted.left (shape ▸ List.cons_ne_nil first rest)
  unfold continueLine skipBlanks extend at *
  dsimp only at *
  rw [content]
  by_cases comment : first = '#'
  · have inside : '\n' ∈ (scanner.skipWhile Text.isBlankInLine).rest := by
      rw [shape]
      exact List.mem_cons_of_mem _ (note comment)
    obtain ⟨lineEnd, -⟩ := Scanner.lineEnd_extend more inside
    rw [lineEnd]
    simp only [Scanner.rest_extend, shape, comment, List.cons_append]
    rfl
  by_cases feed : first = '\n'
  · rw [Scanner.advance_extend shape]
    simp only [Scanner.rest_extend, shape, feed, List.cons_append]
    cases emitted with
    | nil => rfl
    | cons last others =>
      dsimp only [endLine]
      split <;> rfl
  · have read := Token.read_extend shape here feed fun fault failed => closed fault (by
      simp only [shape, failed]
      rfl)
    simp only [Scanner.rest_extend, shape, List.cons_append, read]
    cases Token.read first (scanner.skipWhile Text.isBlankInLine) <;> rfl

omit solid in
theorem advance_of_start (start : lexer.atLineStart = true) : lexer.advance = lexer.startLine.map some := by
  rw [advance, if_pos start]

omit solid in
theorem advance_of_inside (inside : lexer.atLineStart = false) : lexer.advance = lexer.continueLine := by
  rw [advance, if_neg (by simp [inside])]

/-- The next step is the same, whatever stands further on. -/
theorem advance_extend (parted : Parted lexer.scanner.rest more)
    (closed : ∀ fault, lexer.advance = .error fault → fault.cause ≠ .endInsideText) :
    (lexer.extend more).advance = lexer.advance.map (Option.map (extend · more)) := by
  cases start : lexer.atLineStart with
  | true =>
    have start' : (lexer.extend more).atLineStart = true := start
    rw [advance_of_start start, advance_of_start start', startLine_extend solid]
    cases lexer.startLine <;> rfl
  | false =>
    have inside : (lexer.extend more).atLineStart = false := start
    rw [advance_of_inside start] at closed ⊢
    rw [advance_of_inside inside]
    exact continueLine_extend solid parted closed

end Lexer

end TabScript
