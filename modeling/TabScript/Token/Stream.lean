import TabScript.Token.Lexer

/-! The tokens of a whole text. Each step of the lexer leaves less work, so reading ends. -/

set_option autoImplicit false

namespace TabScript

open Scanner

namespace Token

theorem length_rest_readTextBody_lt (quote : Char) (start : Position) (input : List Char)
    (position : Position) (read : List Char) {characters : String} {behind : Scanner}
    (done : readTextBody quote start input position read = .ok (characters, behind)) :
    behind.rest.length < input.length := by
  fun_induction readTextBody quote start input position read <;> grind

theorem length_rest_readText_lt {quote : Char} {scanner behind : Scanner} {token : Token}
    {first : Char} {rest : List Char} (shape : scanner.rest = first :: rest)
    (done : readText quote scanner = .ok (token, behind)) :
    behind.rest.length < scanner.rest.length := by
  unfold readText at done
  cases body : readTextBody quote scanner.position scanner.advance.rest scanner.advance.position []
    with
  | error fault => simp [body, bind, Except.bind] at done
  | ok result =>
    obtain ⟨characters, last⟩ := result
    have shorter := length_rest_readTextBody_lt _ _ _ _ _ body
    have opened := length_rest_advance_lt shape
    simp only [body, bind, Except.bind, pure, Except.pure, Except.ok.injEq, Prod.mk.injEq] at done
    rw [← done.2]
    omega

theorem length_rest_readFraction_le (scanner : Scanner) :
    (readFraction scanner).2.rest.length ≤ scanner.rest.length := by
  unfold readFraction
  split
  · split
    · exact Nat.le_trans (length_rest_skipWhile_le _ _) (length_rest_advance_le _)
    · exact Nat.le_refl _
  · exact Nat.le_refl _

theorem length_rest_readNumber_lt {scanner behind : Scanner} {token : Token} {digit : Char}
    {rest : List Char} (shape : scanner.rest = digit :: rest) (isDigit : digit.isDigit = true)
    (done : readNumber scanner = .ok (token, behind)) :
    behind.rest.length < scanner.rest.length := by
  have whole := length_rest_skipWhile_lt scanner Char.isDigit shape isDigit
  have fraction := length_rest_readFraction_le (scanner.skipWhile Char.isDigit)
  unfold readNumber at done
  simp only at done
  split at done
  · simp at done
  · simp only [Except.ok.injEq, Prod.mk.injEq] at done
    rw [← done.2]
    omega

theorem length_rest_readOperator_lt (first : Char) {scanner : Scanner} {head : Char}
    {rest : List Char} (shape : scanner.rest = head :: rest) :
    (readOperator first scanner).2.rest.length < scanner.rest.length := by
  have one := length_rest_advance_lt shape
  have two := length_rest_advance_le scanner.advance
  unfold readOperator
  simp only
  split
  · split <;> simp only <;> omega
  · simpa using one

theorem length_rest_read_lt {first : Char} {scanner behind : Scanner} {token : Token}
    {rest : List Char} (shape : scanner.rest = first :: rest)
    (done : read first scanner = .ok (token, behind)) :
    behind.rest.length < scanner.rest.length := by
  unfold read at done
  split at done
  · exact length_rest_readText_lt shape done
  split at done
  · rename_i isDigit
    exact length_rest_readNumber_lt shape isDigit done
  split at done
  · rename_i isStart
    simp only [Except.ok.injEq, readWord, Prod.mk.injEq] at done
    rw [← done.2]
    exact length_rest_skipWhile_lt scanner _ shape (Text.isWordPart_of_isWordStart isStart)
  split at done
  · simp only [Except.ok.injEq, Prod.mk.injEq] at done
    rw [← done.2]
    exact length_rest_advance_lt shape
  split at done
  · simp only [Except.ok.injEq] at done
    have shorter := length_rest_readOperator_lt first shape
    rw [done] at shorter
    exact shorter
  · simp at done

end Token

namespace Lexer

theorem rest_indentTo {lexer next : Lexer} {depth : Nat} {span : Span}
    (done : lexer.indentTo depth span = .ok next) :
    next.scanner = lexer.scanner ∧ next.atLineStart = lexer.atLineStart := by
  unfold indentTo at done
  grind

theorem work_startLine_lt {lexer next : Lexer} (start : lexer.atLineStart = true)
    (done : lexer.startLine = .ok next) : next.work < lexer.work := by
  have tabs := length_rest_skipWhile_le lexer.scanner (· == '\t')
  have content := length_rest_skipWhile_le (lexer.scanner.skipWhile (· == '\t')) Text.isBlankInLine
  unfold startLine at done
  simp only at done
  split at done
  · simp only [Except.ok.injEq] at done
    subst done
    simp only [work, start, if_true, Bool.false_eq_true, if_false]
    omega
  · rename_i shape
    have passed := length_rest_advance_lt shape
    simp only [Except.ok.injEq] at done
    subst done
    simp only [work, start, if_true]
    omega
  · rename_i rest shape
    have comment := length_rest_skipWhile_lt _ (· != '\n') shape (by decide)
    have passed := length_rest_advance_le
      (((lexer.scanner.skipWhile (· == '\t')).skipWhile Text.isBlankInLine).skipWhile (· != '\n'))
    simp only [Except.ok.injEq] at done
    subst done
    simp only [work, start, if_true]
    split <;> omega
  · split at done
    · simp at done
    · obtain ⟨sameScanner, sameFlag⟩ := rest_indentTo done
      simp only [work, sameScanner, sameFlag, start, if_true, Bool.false_eq_true, if_false]
      omega

theorem work_continueLine_lt {lexer next : Lexer} (inside : lexer.atLineStart = false)
    (done : lexer.continueLine = .ok (some next)) : next.work < lexer.work := by
  have blanks := length_rest_skipWhile_le lexer.scanner Text.isBlankInLine
  unfold continueLine at done
  simp only [skipBlanks] at done
  split at done
  · simp at done
  · rename_i shape
    have passed := length_rest_advance_lt shape
    simp only [Except.ok.injEq, Option.some.injEq] at done
    subst done
    simp only [work, inside, if_true, Bool.false_eq_true, if_false]
    omega
  · rename_i rest shape
    have comment := length_rest_skipWhile_lt _ (· != '\n') shape (by decide)
    simp only [Except.ok.injEq, Option.some.injEq] at done
    subst done
    simp only [work, inside, Bool.false_eq_true, if_false]
    omega
  · rename_i first rest _ _ shape
    cases token : Token.read first (lexer.scanner.skipWhile Text.isBlankInLine) with
    | error fault => simp [token, bind, Except.bind] at done
    | ok result =>
      obtain ⟨word, behind⟩ := result
      have shorter := Token.length_rest_read_lt shape token
      simp only [token, bind, Except.bind, pure, Except.pure, Except.ok.injEq,
        Option.some.injEq] at done
      subst done
      simp only [work, inside, Bool.false_eq_true, if_false]
      omega

theorem work_advance_lt {lexer next : Lexer} (done : lexer.advance = .ok (some next)) :
    next.work < lexer.work := by
  unfold advance at done
  split at done
  · rename_i start
    cases line : lexer.startLine with
    | error fault => simp [line, Except.map] at done
    | ok result =>
      simp only [line, Except.map, Except.ok.injEq, Option.some.injEq] at done
      subst done
      exact work_startLine_lt start line
  · rename_i inside
    exact work_continueLine_lt (by simpa using inside) done

def tokens (lexer : Lexer) : Except Fault (List Token) :=
  match _step : lexer.advance with
  | .error fault => .error fault
  | .ok none => .ok lexer.finish
  | .ok (some next) => next.tokens
termination_by lexer.work
decreasing_by exact work_advance_lt _step

end Lexer

def tokenize (source : String) : Except Fault (List Token) :=
  (Lexer.ofString source).tokens

end TabScript
