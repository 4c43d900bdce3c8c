import TabScript.Proofs.Lossless.Accounted

/-! Nothing of a text is lost when it is read.

Every step of the lexer passes white space, a comment or a token, so that all that was passed is accounted
for, and at the end that is the whole text. -/

set_option autoImplicit false

namespace TabScript

namespace Lexer

open Scanner

variable {source : List Char} {lexer next : Lexer}

def content (lexer : Lexer) : List Token := Token.contentOf lexer.emitted

def Accounts (source : List Char) (lexer : Lexer) : Prop :=
  ∃ passed, Scanner.Stands source passed lexer.scanner ∧ Accounted source passed lexer.content

theorem isBlank_of_isBlankInLine {character : Char} (blank : Text.isBlankInLine character = true) :
    Text.isBlank character = true :=
  (Bool.and_eq_true_iff.1 blank).2

theorem Accounts.skipBlanks (accounts : lexer.Accounts source) : lexer.skipBlanks.Accounts source := by
  obtain ⟨passed, stands, accounted⟩ := accounts
  refine ⟨_, stands.skipWhile Text.isBlankInLine, accounted.blanks fun character inside => ?_⟩
  exact isBlank_of_isBlankInLine (of_mem_run Text.isBlankInLine inside)

theorem accounts_lineEnd {passed : List Char} {scanner : Scanner} {tokens : List Token}
    (stands : Stands source passed scanner) (accounted : Accounted source passed tokens)
    (ends : ∀ next ∈ scanner.rest.head?, next = '\n') :
    ∃ passed, Stands source passed scanner.advance ∧ Accounted source passed tokens := by
  cases shape : scanner.rest with
  | nil =>
    have stays : scanner.advance = scanner := by rw [Scanner.advance, shape]
    exact ⟨passed, by rw [stays]; exact stands, accounted⟩
  | cons character rest =>
    obtain rfl := ends character (by rw [shape]; rfl)
    exact ⟨_, stands.advance shape, accounted.blank (by decide)⟩

theorem accounts_comment {passed rest : List Char} {scanner : Scanner} {tokens : List Token}
    (stands : Stands source passed scanner) (accounted : Accounted source passed tokens)
    (shape : scanner.rest = '#' :: rest) :
    ∃ passed, Stands source passed (scanner.skipWhile (· != '\n')) ∧ Accounted source passed tokens := by
  have run : scanner.run (· != '\n') = '#' :: rest.takeWhile (· != '\n') := by
    rw [Scanner.run, shape, List.takeWhile_cons_of_pos (by decide)]
  have onward := stands.skipWhile (· != '\n')
  rw [run] at onward
  have split := onward.split
  rw [List.append_assoc, List.cons_append] at split
  refine ⟨_, onward, accounted.comment split ?_ ?_⟩
  · intro inside
    have other := List.all_eq_true.1 List.all_takeWhile _ inside
    simp at other
  · exact head?_lineEnd scanner

theorem content_endLine (lexer : Lexer) (span : Span) :
    (lexer.endLine span).content = lexer.content ∧ (lexer.endLine span).scanner = lexer.scanner := by
  unfold endLine
  split
  · exact ⟨rfl, rfl⟩
  · split <;> exact ⟨rfl, rfl⟩

theorem content_indentTo {depth : Nat} {span : Span} (done : lexer.indentTo depth span = .ok next) :
    next.content = lexer.content := by
  unfold indentTo at done
  split at done
  · cases done
  split at done
  · cases done
    rfl
  split at done
  · cases done
  dsimp only at done
  split at done
  · cases done
    have layout : ∀ token ∈ (lexer.depths.takeWhile (depth < ·)).map
        fun _ => (⟨.dedent, none, span⟩ : Token), token.kind.isContent = false := by
      intro token inside
      obtain ⟨_, -, rfl⟩ := List.mem_map.1 inside
      rfl
    rw [content, Token.contentOf_append, Token.contentOf_layout layout]
    rfl
  · cases done

theorem Accounts.startLine (accounts : lexer.Accounts source) (done : lexer.startLine = .ok next) :
    next.Accounts source := by
  obtain ⟨passed, stands, accounted⟩ := accounts.skipBlanks
  unfold Lexer.startLine at done
  dsimp only at done
  rw [skipWhile_margin] at done
  split at done
  · cases done
    exact ⟨passed, stands, accounted⟩
  · rename_i rest shape
    cases done
    exact ⟨_, stands.advance shape, accounted.blank (by decide)⟩
  · rename_i rest shape
    cases done
    obtain ⟨passed', stands', accounted'⟩ := accounts_comment stands accounted shape
    exact accounts_lineEnd stands' accounted' (head?_lineEnd _)
  · split at done
    · cases done
    · have same := content_indentTo done
      obtain ⟨place, -⟩ := rest_indentTo done
      exact ⟨passed, place ▸ stands, same ▸ accounted⟩

theorem Accounts.continueLine (accounts : lexer.Accounts source)
    (done : lexer.continueLine = .ok (some next)) : next.Accounts source := by
  obtain ⟨passed, stands, accounted⟩ := accounts.skipBlanks
  unfold Lexer.continueLine at done
  dsimp only at done
  split at done
  · cases done
  · rename_i rest shape
    cases done
    obtain ⟨same, -⟩ := content_endLine lexer.skipBlanks (.single lexer.skipBlanks.scanner.position)
    refine ⟨_, stands.advance shape, ?_⟩
    exact same ▸ accounted.blank (by decide)
  · rename_i rest shape
    cases done
    exact accounts_comment stands accounted shape
  · rename_i first rest _ _ shape
    obtain ⟨⟨token, behind⟩, read, made⟩ := except_bind_ok done
    cases made
    obtain ⟨word, spelled⟩ := Token.spelled_read shape read
    have onward := stands.onward spelled.split spelled.place
    refine ⟨_, onward, ?_⟩
    have written := accounted.token (by rw [onward.split, List.append_assoc]) ?_ spelled.lexeme
    · rw [content, Token.contentOf_cons (Token.isContent_read read)]
      exact written
    · rw [spelled.span, onward.place, stands.place]
      rfl

theorem Accounts.advance (accounts : lexer.Accounts source) (done : lexer.advance = .ok (some next)) :
    next.Accounts source := by
  unfold Lexer.advance at done
  split at done
  · cases started : lexer.startLine with
    | error fault =>
      rw [started] at done
      cases done
    | ok other =>
      rw [started] at done
      cases done
      exact accounts.startLine started
  · exact accounts.continueLine done

theorem content_finish (lexer : Lexer) : Token.contentOf lexer.finish = lexer.content.reverse := by
  obtain ⟨same, -⟩ := content_endLine lexer.skipBlanks (.point lexer.skipBlanks.scanner.position)
  have closing : ∀ (stop : Position) (depths : List Nat), Token.contentOf
      ((depths.map fun _ => Token.structural .dedent stop) ++ [.structural .endOfProgram stop]) = [] := by
    intro stop depths
    exact Token.contentOf_layout (by simp [Token.structural, TokenKind.isContent, or_imp, forall_and])
  rw [finish, List.append_assoc, Token.contentOf_append, closing, List.append_nil,
    Token.contentOf_reverse]
  exact congrArg List.reverse same

/-- Nothing but white space is left where the reading ends. -/
theorem rest_of_ended (ended : lexer.advance = .ok none) : lexer.skipBlanks.scanner.rest = [] := by
  unfold Lexer.advance at ended
  split at ended
  · cases started : lexer.startLine <;> rw [started] at ended <;> cases ended
  · unfold Lexer.continueLine at ended
    dsimp only at ended
    split at ended
    · assumption
    · cases ended
    · cases ended
    · obtain ⟨⟨token, behind⟩, -, made⟩ := except_bind_ok ended
      cases made

theorem Accounts.finish (accounts : lexer.Accounts source) (ended : lexer.advance = .ok none) :
    Accounted source source lexer.content := by
  obtain ⟨passed, stands, accounted⟩ := accounts.skipBlanks
  have whole : source = passed := by rw [stands.split, rest_of_ended ended, List.append_nil]
  exact whole ▸ accounted

theorem Accounts.tokens (accounts : lexer.Accounts source) {tokens : List Token}
    (read : lexer.tokens = .ok tokens) :
    Accounted source source (Token.contentOf tokens).reverse := by
  fun_induction Lexer.tokens lexer with
  | case1 lexer fault => cases read
  | case2 lexer ended =>
    cases read
    rw [content_finish, List.reverse_reverse]
    exact accounts.finish ended
  | case3 lexer next step ih => exact ih (accounts.advance step) read

end Lexer

/-- The tokens with content stand one behind the other in the text, none of them empty, each where its span
says and spelled by what stands there. All other characters are white space or belong to comments. -/
theorem tokenize_lossless {source : String} {tokens : List Token}
    (read : tokenize source = .ok tokens) :
    let content := Token.contentOf tokens
    (∀ token ∈ content, token.span.start.Before token.span.stop) ∧
    (content.Pairwise fun first second => first.span.start.Before second.span.start ∧
      first.span.stop ≤ second.span.start) ∧
    (∀ token ∈ content, ∃ before word after, token.Written source.toList before word after) ∧
    ∀ before character after, source.toList = before ++ character :: after →
      Token.Cover content (.behind before) ∨ Text.isBlank character = true ∨
        ∃ earlier note, Comment source.toList content earlier note ∧ earlier <+: before ∧
          before ++ [character] <+: earlier ++ '#' :: note := by
  intro content
  have accounted : Accounted source.toList source.toList content.reverse :=
    Lexer.Accounts.tokens ⟨[], Scanner.stands_ofString source, .nothing _⟩ read
  have written : ∀ token ∈ content, ∃ before word after,
      token.Written source.toList before word after := by
    intro token inside
    obtain ⟨before, word, after, written, -⟩ := accounted.written token (List.mem_reverse.2 inside)
    exact ⟨before, word, after, written⟩
  have solid : ∀ token ∈ content, token.span.start.Before token.span.stop := by
    intro token inside
    obtain ⟨before, word, after, written⟩ := written token inside
    exact written.start_before_stop
  refine ⟨solid, ?_, written, fun before character after split => ?_⟩
  · refine (List.pairwise_reverse.1 accounted.ordered).imp_of_mem fun inside _ behind => ?_
    exact ⟨(solid _ inside).trans_le behind, behind⟩
  · have begins : before ++ [character] <+: source.toList := ⟨after, by rw [split]; simp⟩
    rcases accounted.outside before character begins with ⟨token, inside, covers⟩ | blank |
      ⟨earlier, note, comment, starts, holds, -⟩
    · exact .inl ⟨token, List.mem_reverse.1 inside, covers⟩
    · exact .inr (.inl blank)
    · refine .inr (.inr ⟨earlier, note, ⟨comment.inLine, comment.ends, fun token inside => ?_⟩, starts,
        holds⟩)
      exact comment.apart token (List.mem_reverse.2 inside)

/-- Three tokens on two lines of the text: the escaped end of a line belongs to one of them, and the comment
to none. -/
theorem tokenize_lossless_continued :
    ∃ tokens, tokenize "a>='\\\n' # b" = .ok tokens ∧ (Token.contentOf tokens).length = 3 ∧
      ∀ token ∈ Token.contentOf tokens, ∃ before word after,
        token.Written "a>='\\\n' # b".toList before word after := by
  have reads : ((tokenize "a>='\\\n' # b").toOption.map fun tokens =>
      (Token.contentOf tokens).length) = some 3 := by
    decide +kernel
  obtain ⟨tokens, read, count⟩ := Option.map_eq_some_iff.1 reads
  have done := except_of_toOption read
  obtain ⟨-, -, written, -⟩ := tokenize_lossless done
  exact ⟨tokens, done, count, written⟩

end TabScript
