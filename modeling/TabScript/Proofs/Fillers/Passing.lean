import TabScript.Proofs.Fillers.Ahead

/-! How reading gets to a filler, and over it.

The reading of a text gets to a place in it without having looked at what stands behind, unless the place is
inside of a text. There a filler is passed over. -/

set_option autoImplicit false

namespace TabScript

def endsInText (characters : List Char) : Bool :=
  match tokenize (String.ofList characters) with
  | .error ⟨.endInsideText, _⟩ => true
  | _ => false

theorem Filler.inLine {filler : List Char} (fills : Filler filler) : '\n' ∉ filler := by
  cases fills with
  | blank all => exact Lexer.inLine_of_blank all
  | comment all inLine =>
    intro inside
    rcases List.mem_append.1 inside with inside | inside
    · exact Lexer.inLine_of_blank all inside
    · rcases List.mem_cons.1 inside with same | inside
      · cases same
      · exact inLine inside

theorem Filler.append {first second : List Char} (fills : Filler first) (more : Filler second) :
    Filler (first ++ second) := by
  have inLine := more.inLine
  cases fills with
  | blank all =>
    cases more with
    | blank others =>
      exact .blank fun character inside => (List.mem_append.1 inside).elim (all _) (others _)
    | comment others words =>
      rw [← List.append_assoc]
      exact .comment (fun character inside => (List.mem_append.1 inside).elim (all _) (others _)) words
  | comment all words =>
    rw [List.append_assoc, List.cons_append]
    exact .comment all fun inside => (List.mem_append.1 inside).elim words inLine

theorem Filler.border {filler after : List Char} (fills : Filler filler)
    (ends : ∀ next ∈ after.head?, Text.isBorder next = true) :
    ∀ next ∈ (filler ++ after).head?, Text.isBorder next = true := by
  have solid : ∀ {character : Char}, Text.isBlankInLine character = true → Text.isBorder character = true :=
    fun blank => Bool.or_eq_true_iff.2 (.inl (Bool.and_eq_true_iff.1 blank).2)
  intro next head
  cases fills with
  | blank all =>
    cases filler with
    | nil => exact ends next head
    | cons _ others =>
      cases head
      exact solid (all next List.mem_cons_self)
  | @comment blanks words all =>
    cases blanks with
    | nil =>
      cases head
      rfl
    | cons _ others =>
      cases head
      exact solid (all next List.mem_cons_self)

theorem Filler.eq_nil {passed rest : List Char} (fills : Filler rest)
    (lines : passed ++ rest = [] ∨ (passed ++ rest).getLast? = some '\n') : rest = [] := by
  by_contra some_
  rcases lines with none_ | ends
  · exact some_ (List.append_eq_nil_iff.1 none_).2
  · rw [List.getLast?_append_of_ne_nil _ some_] at ends
    exact fills.inLine (List.mem_of_getLast? ends)

theorem Position.line_afterAll (place : Position) {run : List Char} (inLine : '\n' ∉ run) :
    (place.afterAll run).line = place.line := by
  induction run generalizing place with
  | nil => rfl
  | cons character run ih =>
    simp only [List.mem_cons, not_or] at inLine
    refine (ih (place.after character) inLine.2).trans ?_
    rw [after, if_neg (Ne.symm inLine.1)]

namespace Lexer

variable {lexer next last : Lexer} {source passed more : List Char}

/-- Reading gets from one place to another, as long as more than a filler is left. -/
inductive Reaches : Lexer → Lexer → Prop where
  | here (lexer : Lexer) : Reaches lexer lexer
  | step {lexer next last : Lexer} (solid : ¬Filler lexer.scanner.rest)
    (goes : lexer.advance = .ok (some next)) (onward : Reaches next last) : Reaches lexer last

theorem reaches_end (lexer : Lexer) : ∃ last, Reaches lexer last ∧
    (Filler last.scanner.rest ∨ ¬Filler last.scanner.rest ∧ ∃ fault, last.advance = .error fault) := by
  fun_induction tokens lexer with
  | case1 lexer fault failed =>
    by_cases fills : Filler lexer.scanner.rest
    · exact ⟨lexer, .here lexer, .inl fills⟩
    · exact ⟨lexer, .here lexer, .inr ⟨fills, fault, failed⟩⟩
  | case2 lexer ended =>
    have spent : lexer.skipBlanks.scanner.rest = [] := rest_of_ended ended
    have split := Scanner.run_append_skipWhile lexer.scanner Text.isBlankInLine
    refine ⟨lexer, .here lexer, .inl ?_⟩
    rw [← split, show (lexer.scanner.skipWhile Text.isBlankInLine).rest = [] from spent, List.append_nil]
    exact .blank fun character inside => Scanner.of_mem_run Text.isBlankInLine inside
  | case3 lexer next goes ih =>
    by_cases fills : Filler lexer.scanner.rest
    · exact ⟨lexer, .here lexer, .inl fills⟩
    · obtain ⟨last, onward, ends⟩ := ih
      exact ⟨last, .step fills goes onward, ends⟩

theorem Reaches.tokens (reaches : Reaches lexer last) : lexer.tokens = last.tokens := by
  induction reaches with
  | here => rfl
  | step _ goes _ ih => exact (tokens_of_advance goes).trans ih

theorem Reaches.placed (reaches : Reaches lexer last) (placed : lexer.Placed source passed) :
    ∃ onward, last.Placed source onward := by
  induction reaches generalizing passed with
  | here => exact ⟨passed, placed⟩
  | step _ goes _ ih =>
    obtain ⟨onward, later⟩ := placed.step goes
    exact ih later

theorem rest_of_solid (solid : ¬Filler lexer.scanner.rest) : lexer.scanner.rest ≠ [] := by
  intro spent
  rw [spent] at solid
  exact solid (.blank fun _ inside => nomatch inside)

theorem Placed.parted (placed : lexer.Placed source passed) (parted : source ≠ [] → Parted source more)
    (solid : ¬Filler lexer.scanner.rest) : Parted lexer.scanner.rest more := by
  have some_ := rest_of_solid solid
  rw [placed.stands.split] at parted
  exact (parted fun none_ => some_ (List.append_eq_nil_iff.1 none_).2).left some_

theorem Reaches.extend (reaches : Reaches lexer last) (placed : lexer.Placed source passed)
    (parted : source ≠ [] → Parted source more) : (lexer.extend more).tokens = (last.extend more).tokens := by
  induction reaches generalizing passed with
  | here => rfl
  | @step lexer next last solid goes _ ih =>
    obtain ⟨onward, later⟩ := placed.step goes
    have same := advance_extend solid (placed.parted parted solid) fun fault failed =>
      nomatch goes.symm.trans failed
    rw [goes] at same
    have step : (lexer.extend more).advance = .ok (some (next.extend more)) := same
    exact (tokens_of_advance step).trans (ih later)

theorem start_of_spent (solid : ¬Filler lexer.scanner.rest) (goes : lexer.advance = .ok (some next))
    (ends : lexer.scanner.rest.getLast? = some '\n') (spent : next.scanner.rest = []) :
    next.atLineStart = true := by
  obtain ⟨scanner, depths, emitted, flag⟩ := lexer
  obtain ⟨first, rest, shape, note⟩ := Scanner.head_of_solid solid
  dsimp only at ends
  -- a step that goes on inside of a line leaves the line feed behind
  rw [← Scanner.run_append_skipWhile scanner Text.isBlankInLine,
    List.getLast?_append_of_ne_nil _ (shape ▸ List.cons_ne_nil first rest)] at ends
  have comment : first = '#' →
      ∃ rest, ((scanner.skipWhile Text.isBlankInLine).skipWhile (· != '\n')).rest = '\n' :: rest := by
    intro same
    refine (Scanner.lineEnd_extend [] ?_).2
    rw [shape]
    exact List.mem_cons_of_mem _ (note same)
  cases flag with
  | true =>
    rw [advance_of_start rfl] at goes
    cases started : startLine ⟨scanner, depths, emitted, true⟩ with
    | error fault =>
      rw [started] at goes
      cases goes
    | ok after =>
      rw [started] at goes
      cases goes
      unfold startLine at started
      dsimp only at started
      rw [skipWhile_margin] at started
      split at started
      · rename_i found
        cases found.symm.trans shape
      · cases started
        rfl
      · rename_i found
        cases shape.symm.trans found
        obtain ⟨tail, behind⟩ := comment rfl
        cases started
        rw [Scanner.atEnd, behind]
        rfl
      · split at started
        · cases started
        · have place := (rest_indentTo started).1
          rw [place] at spent
          cases spent.symm.trans shape
  | false =>
    rw [advance_of_inside rfl, continueLine] at goes
    dsimp only [skipBlanks] at goes
    split at goes
    · cases goes
    · cases goes
      rfl
    · rename_i found
      cases shape.symm.trans found
      obtain ⟨tail, behind⟩ := comment rfl
      cases goes
      cases spent.symm.trans behind
    · -- the line feed is not in the last token
      obtain ⟨⟨token, behind⟩, read, made⟩ := except_bind_ok goes
      cases made
      rename_i found
      obtain ⟨word, spelled⟩ := Token.spelled_read found read
      obtain ⟨literal, -, lexeme⟩ := spelled.lexeme
      have whole := spelled.split
      rw [show behind.rest = [] from spent, List.append_nil] at whole
      exact absurd rfl (lexeme.inLine '\n' (whole ▸ ends))

theorem Reaches.start (reaches : Reaches lexer last) (placed : lexer.Placed source passed)
    (lines : source = [] ∨ source.getLast? = some '\n')
    (start : lexer.scanner.rest = [] → lexer.atLineStart = true) :
    last.scanner.rest = [] → last.atLineStart = true := by
  induction reaches generalizing passed with
  | here => exact start
  | step solid goes _ ih =>
    obtain ⟨onward, later⟩ := placed.step goes
    refine ih later fun spent => ?_
    have some_ := rest_of_solid solid
    have split := placed.stands.split
    refine start_of_spent solid goes ?_ spent
    rcases lines with rfl | ends
    · exact absurd (List.append_eq_nil_iff.1 split.symm).2 some_
    · rwa [split, List.getLast?_append_of_ne_nil _ some_] at ends

end Lexer

namespace Scanner

variable {filler after : List Char} {position : Position}

theorem skipWhile_run {test : Char → Bool} {run : List Char} (passes : ∀ character ∈ run, test character = true)
    (after : List Char) (position : Position) :
    skipWhile ⟨run ++ after, position⟩ test = skipWhile ⟨after, position.afterAll run⟩ test := by
  simp only [skipWhile, Scanner.run, List.dropWhile_append_of_pos passes, List.takeWhile_append_of_pos passes,
    Position.afterAll_append]

theorem skipWhile_blanks_comment {blanks words : List Char}
    (all : ∀ character ∈ blanks, Text.isBlankInLine character = true) :
    skipWhile ⟨blanks ++ ('#' :: words ++ after), position⟩ Text.isBlankInLine =
      ⟨'#' :: words ++ after, position.afterAll blanks⟩ := by
  rw [skipWhile_run all]
  exact skipWhile_eq_self (by rintro _ ⟨⟩; rfl)

variable (ends : ∀ character ∈ after.head?, character = '\n')
include ends

theorem skipWhile_comment {words : List Char} (inLine : '\n' ∉ words) :
    skipWhile ⟨'#' :: words ++ after, position⟩ (· != '\n') = ⟨after, position.afterAll ('#' :: words)⟩ := by
  rw [skipWhile_run]
  · exact skipWhile_eq_self fun character head => by simp [ends character head]
  · rintro character (_ | ⟨_, inside⟩)
    · rfl
    · exact bne_iff_ne.2 fun feed => inLine (feed ▸ inside)

theorem line_filler (fills : Filler filler) :
    line ⟨filler ++ after, position⟩ = .ok ([], advance ⟨after, position.afterAll filler⟩) := by
  cases fills with
  | blank all =>
    have stays : skipWhile ⟨after, position.afterAll filler⟩ Text.isBlankInLine =
        ⟨after, position.afterAll filler⟩ :=
      skipWhile_eq_self fun character head => by rw [ends character head]; rfl
    rw [line, skipWhile_run all, stays]
    cases after with
    | nil => rfl
    | cons first after =>
      obtain rfl := ends first rfl
      rfl
  | @comment blanks words all inLine =>
    rw [List.append_assoc, line, skipWhile_blanks_comment all, Position.afterAll_append,
      ← skipWhile_comment ends inLine]
    rfl

end Scanner

namespace Lexer

variable {depths : List Nat} {emitted : List Token} {flag : Bool} {filler after : List Char}
  {position : Position}

theorem tokens_skipBlanks (scanner : Scanner) :
    tokens ⟨scanner.skipWhile Text.isBlankInLine, depths, emitted, false⟩ =
      tokens ⟨scanner, depths, emitted, false⟩ := by
  have skipped : skipBlanks ⟨scanner.skipWhile Text.isBlankInLine, depths, emitted, false⟩ =
      skipBlanks ⟨scanner, depths, emitted, false⟩ := by
    simp only [skipBlanks, Scanner.skipWhile_blanks]
  have same : advance ⟨scanner.skipWhile Text.isBlankInLine, depths, emitted, false⟩ =
      advance ⟨scanner, depths, emitted, false⟩ := by
    rw [advance_of_inside rfl, advance_of_inside rfl, continueLine, continueLine, skipped]
  cases step : advance ⟨scanner, depths, emitted, false⟩ with
  | error fault => rw [tokens_of_error step, tokens_of_error (same.trans step)]
  | ok next =>
    cases next with
    | none => rw [tokens_of_end step, tokens_of_end (same.trans step), finish, finish, skipped]
    | some next => rw [tokens_of_advance step, tokens_of_advance (same.trans step)]

theorem tokens_filler (fills : Filler filler) (ends : ∀ character ∈ after.head?, character = '\n') :
    tokens ⟨⟨filler ++ after, position⟩, depths, emitted, flag⟩ =
      tokens ⟨⟨after, position.afterAll filler⟩, depths, emitted, flag⟩ := by
  cases flag with
  | true =>
    have nothing : Filler [] := .blank fun _ inside => nomatch inside
    exact (tokens_blank (Scanner.line_filler ends fills)).trans
      (tokens_blank (@Scanner.line_filler [] after (position.afterAll filler) ends nothing)).symm
  | false =>
    cases fills with
    | blank all => rw [← tokens_skipBlanks, Scanner.skipWhile_run all, tokens_skipBlanks]
    | @comment blanks words all inLine =>
      have content := @Scanner.skipWhile_blanks_comment after position blanks words all
      rw [List.append_assoc, tokens_comment (congrArg Scanner.rest content), content,
        Scanner.skipWhile_comment ends inLine, Position.afterAll_append]

theorem tokens_fillerLine (fills : Filler filler) :
    tokens ⟨⟨filler ++ '\n' :: after, position⟩, depths, emitted, true⟩ =
      tokens ⟨⟨after, ⟨position.line + 1, 0⟩⟩, depths, emitted, true⟩ := by
  rw [tokens_blank (Scanner.line_filler (by simp) fills), ← position.line_afterAll fills.inLine]
  rfl

theorem tokens_feed :
    tokens ⟨⟨'\n' :: after, position⟩, depths, emitted, false⟩ =
      tokens (endLine ⟨⟨after, ⟨position.line + 1, 0⟩⟩, depths, emitted, true⟩ (.single position)) := by
  have stays : Scanner.skipWhile ⟨'\n' :: after, position⟩ Text.isBlankInLine = ⟨'\n' :: after, position⟩ :=
    Scanner.skipWhile_eq_self (by rintro _ ⟨⟩; rfl)
  apply tokens_of_advance
  rw [advance_of_inside rfl, continueLine]
  simp only [skipBlanks, stays, endLine]
  cases emitted with
  | nil => rfl
  | cons last others =>
    dsimp only
    split <;> rfl

theorem tokens_endLine_filler (fills : Filler filler) (span : Span) :
    tokens (endLine ⟨⟨filler, position⟩, depths, emitted, true⟩ span) =
      tokens (endLine ⟨⟨[], position.afterAll filler⟩, depths, emitted, true⟩ span) := by
  have passes : ∀ emitted, tokens ⟨⟨filler, position⟩, depths, emitted, true⟩ =
      tokens ⟨⟨[], position.afterAll filler⟩, depths, emitted, true⟩ := by
    intro emitted
    have same := @tokens_filler depths emitted true filler [] position fills (by simp)
    rwa [List.append_nil] at same
  unfold endLine
  dsimp only
  split
  · exact passes _
  · split <;> exact passes _

theorem tokens_last :
    tokens ⟨⟨[], position⟩, depths, emitted, false⟩ =
      tokens (endLine ⟨⟨[], position⟩, depths, emitted, true⟩ (.point position)) := by
  rw [tokens_inside_spent rfl]
  cases emitted with
  | nil =>
    rw [endLine, tokens_spent rfl, tokens_inside_spent rfl]
  | cons last others =>
    by_cases ended : last.kind = .newline
    · simp only [endLine, ended, if_true]
      rw [tokens_spent rfl, tokens_inside_spent rfl]
    · simp only [endLine, ended, if_false]
      rw [tokens_spent rfl, tokens_inside_spent rfl]
      simp only [finish, endLine, skipBlanks, ended, if_true, if_false]
      rfl

end Lexer

namespace Lexer

variable {before filler after : List Char}

theorem ofString_append (more : List Char) :
    ofString (String.ofList (before ++ more)) = (ofString (String.ofList before)).extend more := by
  simp only [ofString, extend, Scanner.ofString, Scanner.extend, String.toList_ofList]

theorem placed_ofString (source : List Char) : (ofString (String.ofList source)).Placed source [] := by
  refine ⟨?_, ?_, ?_, ?_⟩
  · have stands := Scanner.stands_ofString (String.ofList source)
    rwa [String.toList_ofList] at stands
  all_goals simp [ofString]

/-- Up to the place of a filler it does not matter what stands there, unless it is inside of a text. -/
theorem reads_before (outside : endsInText before = false) :
    (∃ fault : Fault, fault.Sited before ∧
        ∀ more, (before ≠ [] → Parted before more) →
          tokenize (String.ofList (before ++ more)) = .error fault) ∨
      ∃ last : Lexer, (ofString (String.ofList before)).Reaches last ∧ Filler last.scanner.rest ∧
        ∀ more, (before ≠ [] → Parted before more) →
          tokenize (String.ofList (before ++ more)) = (last.extend more).tokens := by
  -- the reading of what stands in front alone shows how far all of them go together
  obtain ⟨last, reaches, ends⟩ := reaches_end (ofString (String.ofList before))
  have placed := placed_ofString before
  obtain ⟨onward, here⟩ := reaches.placed placed
  have same : ∀ more, (before ≠ [] → Parted before more) →
      tokenize (String.ofList (before ++ more)) = (last.extend more).tokens := by
    intro more parted
    rw [tokenize, ofString_append, reaches.extend placed parted]
  rcases ends with fills | ⟨solid, fault, failed⟩
  · exact .inr ⟨last, reaches, fills, same⟩
  · have read : tokenize (String.ofList before) = .error fault := reaches.tokens.trans (tokens_of_error failed)
    have closed : fault.cause ≠ .endInsideText := by
      obtain ⟨cause, span⟩ := fault
      rintro rfl
      rw [endsInText, read] at outside
      cases outside
    refine .inl ⟨fault, here.advance.of_error failed, fun more parted => ?_⟩
    have step := advance_extend solid (here.parted parted solid) fun other failed' => by
      cases failed.symm.trans failed'
      exact closed
    rw [failed] at step
    rw [same more parted]
    exact tokens_of_error step

end Lexer

end TabScript
