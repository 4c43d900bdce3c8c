import Mathlib.Logic.Relation
import TabScript.Proofs.Lossless.Lexemes

/-! Texts that are written between quotes, and read again.

Reading what stands between quotes can be cut anywhere between two encoded characters: what is behind the cut
is read as if nothing had been in front of it. So a text comes back from whatever way it was written in, and
nothing in front of a line feed, of a control character or of the end of the input can save the literal. -/

set_option autoImplicit false

namespace TabScript

namespace Token

def encodings (quote : Char) : List (Char × Char) :=
  [('\\', '\\'), (quote, quote), ('a', '\x07'), ('b', '\x08'), ('f', '\x0c'), ('n', '\n'), ('r', '\r'),
    ('t', '\t')]

/-- What can be written between quotes for a text. Lines can be continued between any two characters. -/
inductive Encodes (quote : Char) : List Char → List Char → Prop where
  | nothing : Encodes quote [] []
  | continued {body value : List Char} (others : Encodes quote body value) :
    Encodes quote ('\\' :: '\n' :: body) value
  | escape {letter character : Char} {body value : List Char} (known : (letter, character) ∈ encodings quote)
    (others : Encodes quote body value) : Encodes quote ('\\' :: letter :: body) (character :: value)
  | raw {character : Char} {body value : List Char} (open_ : character ≠ quote) (literal : character ≠ '\\')
    (visible : Text.isControl character = false ∨ character = '\t') (others : Encodes quote body value) :
    Encodes quote (character :: body) (character :: value)

/-- Here the text between quotes breaks off: at the end of the input, a backslash in front of it or not, or
at a control character. -/
inductive BreaksOff : List Char → Prop where
  | ends : BreaksOff []
  | escape : BreaksOff ['\\']
  | control {character : Char} (control : Text.isControl character = true) (other : character ≠ '\t')
    (rest : List Char) : BreaksOff (character :: rest)

variable {quote : Char} {body value : List Char} (quoted : quote = '"' ∨ quote = '\'')

section
include quoted

theorem quote_apart : quote ≠ '\n' ∧ quote ≠ '#' ∧ quote ≠ '\\' := by
  rcases quoted with rfl | rfl <;> decide

theorem escapes_of_encodings :
    ∀ pair ∈ encodings quote, pair ∈ escapes := by
  rcases quoted with rfl | rfl <;> decide

theorem Encodes.decodes (encodes : Encodes quote body value) : Decodes quote body value := by
  induction encodes with
  | nothing => exact .nothing
  | continued _ ih => exact .continued ih
  | escape known _ ih => exact .escape (escapes_of_encodings quoted _ known) ih
  | raw open_ literal visible _ ih =>
    refine .plain open_ ?_ literal visible ih
    rintro rfl
    rcases visible with visible | tab
    · cases visible
    · cases tab

end

theorem exists_encodes (quote : Char) (writable : ∀ character ∈ value, Text.isWritable character = true) :
    ∃ body, Encodes quote body value := by
  induction value with
  | nil => exact ⟨[], .nothing⟩
  | cons character value ih =>
    obtain ⟨body, others⟩ := ih fun other inside => writable other (List.mem_cons_of_mem _ inside)
    by_cases known : ∃ letter, (letter, character) ∈ encodings quote
    · obtain ⟨letter, known⟩ := known
      exact ⟨_, .escape known others⟩
    · -- the control characters that can be written are those with a letter
      have unnamed : ∀ pair ∈ encodings quote, character ≠ pair.2 := by
        rintro ⟨letter, _⟩ inside rfl
        exact known ⟨letter, inside⟩
      have named := writable character List.mem_cons_self
      simp only [encodings, List.forall_mem_cons, List.not_mem_nil, false_implies, implies_true,
        and_true] at unnamed
      obtain ⟨backslash, open_, bell, backspace, feed, line, return_, tab⟩ := unnamed
      simp only [Text.isWritable, Bool.or_eq_true, Bool.not_eq_true', List.contains_iff_mem, List.mem_cons,
        List.not_mem_nil, or_false, bell, backspace, feed, line, return_, tab] at named
      exact ⟨_, .raw open_ backslash (.inl named) others⟩

theorem unescape_known {character meaning : Char} (known : (character, meaning) ∈ escapes) :
    unescape character = [meaning] := by
  have all : ∀ pair ∈ escapes, unescape pair.1 = [pair.2] := by decide
  exact all _ known

theorem unescape_unknown {character : Char} (inLine : character ≠ '\n')
    (unknown : ∀ meaning, (character, meaning) ∉ escapes) : unescape character = ['\\', character] := by
  have unnamed : character ∉ escapes.map Prod.fst := by
    intro inside
    obtain ⟨⟨_, meaning⟩, known, rfl⟩ := List.mem_map.1 inside
    exact unknown meaning known
  unfold unescape
  split
  case h_1 => exact absurd rfl inLine
  case h_11 => rfl
  all_goals exact absurd (by decide) unnamed

section
include quoted

theorem readTextBody_escape_cons (escaped : Char) (start position : Position) (rest read : List Char) :
    readTextBody quote start ('\\' :: escaped :: rest) position read =
      readTextBody quote start rest ((position.after '\\').after escaped)
        ((unescape escaped).reverse ++ read) := by
  rw [readTextBody.eq_def]
  dsimp only
  rw [if_neg (by decide), if_neg (quote_apart quoted).2.2.symm, if_pos rfl]

/-- What stands behind some encoded characters is read as if it came first. -/
theorem Decodes.readTextBody_append (decodes : Decodes quote body value) (start position : Position)
    (rest read : List Char) :
    readTextBody quote start (body ++ rest) position read =
      readTextBody quote start rest (position.afterAll body) (value.reverse ++ read) := by
  induction decodes generalizing position read with
  | nothing => rfl
  | plain open_ inLine literal visible _ ih =>
    rename_i character body value _
    have shown : ¬(Text.isControl character && character != '\t') = true := by
      rcases visible with visible | rfl
      · simp [visible]
      · decide
    rw [List.cons_append, readTextBody.eq_def]
    dsimp only
    rw [if_neg inLine, if_neg open_, if_neg literal, if_neg shown, ih, List.reverse_cons, List.append_assoc]
    rfl
  | continued _ ih => exact (readTextBody_escape_cons quoted _ _ _ _ _).trans (ih _ _)
  | escape known _ ih =>
    refine (readTextBody_escape_cons quoted _ _ _ _ _).trans ((ih _ _).trans ?_)
    rw [unescape_known known, ← List.append_assoc, ← List.reverse_append]
    rfl
  | kept inLine unknown _ ih =>
    refine (readTextBody_escape_cons quoted _ _ _ _ _).trans ((ih _ _).trans ?_)
    rw [unescape_unknown inLine unknown, ← List.append_assoc, ← List.reverse_append]
    rfl

theorem readTextBody_closed (start position : Position) (rest read : List Char) :
    readTextBody quote start (quote :: rest) position read =
      .ok (String.ofList read.reverse, ⟨rest, position.after quote⟩) := by
  rw [readTextBody.eq_def]
  dsimp only
  rw [if_neg (quote_apart quoted).1, if_pos rfl]

theorem readTextBody_breaksOff {rest : List Char} (breaks : BreaksOff rest) (start position : Position)
    (read : List Char) :
    ∃ fault, readTextBody quote start rest position read = .error fault := by
  cases breaks with
  | ends => exact ⟨_, rfl⟩
  | escape => rcases quoted with rfl | rfl <;> exact ⟨_, rfl⟩
  | control control other =>
    rename_i character rest
    rw [readTextBody.eq_def]
    dsimp only
    split
    · exact ⟨_, rfl⟩
    · -- neither a quote nor a backslash is a control character
      have open_ : character ≠ quote := by
        rintro rfl
        rcases quoted with rfl | rfl <;> exact absurd control (by decide)
      have literal : character ≠ '\\' := by
        rintro rfl
        exact absurd control (by decide)
      rw [if_neg open_, if_neg literal, if_pos (by simp [control, other])]
      exact ⟨_, rfl⟩

variable {scanner : Scanner}

theorem read_literal (decodes : Decodes quote body value) {after : List Char}
    (shape : scanner.rest = quote :: (body ++ [quote]) ++ after) :
    Token.read quote scanner = .ok
      (⟨.text, some (.text (String.ofList value)),
          ⟨scanner.position, scanner.position.afterAll (quote :: (body ++ [quote]))⟩⟩,
        ⟨after, scanner.position.afterAll (quote :: (body ++ [quote]))⟩) := by
  obtain ⟨_, position⟩ := scanner
  obtain rfl := shape
  have place : position.afterAll (quote :: (body ++ [quote])) =
      ((position.after quote).afterAll body).after quote := by
    rw [← List.cons_append, Position.afterAll_append]
    rfl
  have closed := (decodes.readTextBody_append quoted position (position.after quote) (quote :: after) []).trans
    (readTextBody_closed quoted _ _ after _)
  rw [List.append_nil, List.reverse_reverse] at closed
  rw [Token.read, if_pos quoted, readText, place]
  simp only [Scanner.advance, List.cons_append, List.append_assoc, List.nil_append, closed]
  rfl

theorem read_breaksOff (decodes : Decodes quote body value) {rest : List Char} (breaks : BreaksOff rest)
    (shape : scanner.rest = quote :: (body ++ rest)) : ∃ fault, Token.read quote scanner = .error fault := by
  obtain ⟨_, position⟩ := scanner
  obtain rfl := shape
  obtain ⟨fault, broken⟩ := readTextBody_breaksOff quoted breaks position
    ((position.after quote).afterAll body) (value.reverse ++ [])
  refine ⟨fault, ?_⟩
  rw [Token.read, if_pos quoted, readText]
  simp only [Scanner.advance, decodes.readTextBody_append quoted, broken]
  rfl

end

end Token

namespace Lexer

/-- The lexer comes to this state on its way through the text. -/
def IsReached (source : String) (lexer : Lexer) : Prop :=
  Relation.ReflTransGen (fun before next : Lexer => before.advance = .ok (some next)) (ofString source) lexer

variable {source : String} {lexer : Lexer} {quote : Char} {body value : List Char}

theorem IsReached.tokenize (reached : IsReached source lexer) : TabScript.tokenize source = lexer.tokens := by
  induction reached with
  | refl => rfl
  | tail _ step ih => exact ih.trans (tokens_of_advance step)

section
variable (quoted : quote = '"' ∨ quote = '\'')
include quoted

theorem advance_literal (decodes : Token.Decodes quote body value)
    (inside : lexer.atLineStart = false) {after : List Char}
    (shape : lexer.skipBlanks.scanner.rest = quote :: (body ++ [quote]) ++ after) :
    let begin := lexer.skipBlanks.scanner.position
    let stop := begin.afterAll (quote :: (body ++ [quote]))
    lexer.advance = .ok (some { lexer with
      scanner := ⟨after, stop⟩
      emitted := ⟨.text, some (.text (String.ofList value)), ⟨begin, stop⟩⟩ :: lexer.emitted }) := by
  obtain ⟨scanner, depths, emitted, _⟩ := lexer
  obtain rfl := inside
  obtain ⟨newline, comment, -⟩ := Token.quote_apart quoted
  have read := Token.read_literal quoted decodes shape
  simp only [skipBlanks] at read
  rw [advance, if_neg (by simp), continueLine_read newline comment shape, read]
  rfl

theorem tokens_breaksOff (decodes : Token.Decodes quote body value) (inside : lexer.atLineStart = false)
    {rest : List Char} (breaks : Token.BreaksOff rest)
    (shape : lexer.skipBlanks.scanner.rest = quote :: (body ++ rest)) :
    ∃ fault, lexer.tokens = .error fault := by
  obtain ⟨scanner, depths, emitted, _⟩ := lexer
  obtain rfl := inside
  obtain ⟨newline, comment, -⟩ := Token.quote_apart quoted
  obtain ⟨fault, failed⟩ := Token.read_breaksOff quoted decodes breaks shape
  exact ⟨fault, tokens_read_error newline comment shape failed⟩

/-- A quote at the beginning of a text stands on a line without indentation. -/
theorem advance_ofString_quote (rest : List Char) :
    (ofString (String.ofList (quote :: rest))).advance =
      .ok (some ⟨⟨quote :: rest, .origin⟩, [], [], false⟩) := by
  have start : ofString (String.ofList (quote :: rest)) = ⟨⟨quote :: rest, .origin⟩, [], [], true⟩ := by
    rw [ofString, Scanner.ofString, String.toList_ofList]
  rw [start]
  rcases quoted with rfl | rfl <;> rfl

theorem tokenize_literal (decodes : Token.Decodes quote body value) :
    let stop := Position.origin.afterAll (quote :: (body ++ [quote]))
    TabScript.tokenize (String.ofList (quote :: (body ++ [quote]))) =
      .ok [⟨.text, some (.text (String.ofList value)), ⟨.origin, stop⟩⟩, .structural .newline stop,
        .structural .endOfProgram stop] := by
  have here : skipBlanks ⟨⟨quote :: (body ++ [quote]), .origin⟩, [], [], false⟩ =
      ⟨⟨quote :: (body ++ [quote]), .origin⟩, [], [], false⟩ := by
    rcases quoted with rfl | rfl <;> rfl
  have shape : (skipBlanks ⟨⟨quote :: (body ++ [quote]), .origin⟩, [], [], false⟩).scanner.rest =
      quote :: (body ++ [quote]) ++ [] := by rw [here, List.append_nil]
  have read := advance_literal quoted decodes rfl shape
  rw [here] at read
  exact (tokens_of_advance (advance_ofString_quote quoted _)).trans
    ((tokens_of_advance read).trans (tokens_inside_spent rfl))

end

end Lexer

/-- Every text of characters that can be written is read back from whatever literal is written for it: as one
token, with that text as its value, that spans the literal, wherever it stands on a line. A text between
quotes that breaks off makes the whole program unreadable, wherever the lexer comes to it. -/
theorem literals_read_back {quote : Char} (quoted : quote = '"' ∨ quote = '\'') :
    (∀ value : List Char, (∀ character ∈ value, Text.isWritable character = true) →
      ∃ body, Token.Encodes quote body value) ∧
    (∀ body value, Token.Encodes quote body value →
      (∀ (lexer : Lexer) (after : List Char), lexer.atLineStart = false →
        lexer.skipBlanks.scanner.rest = quote :: (body ++ [quote]) ++ after →
        let begin := lexer.skipBlanks.scanner.position
        let stop := begin.afterAll (quote :: (body ++ [quote]))
        lexer.advance = .ok (some { lexer with
          scanner := ⟨after, stop⟩
          emitted := ⟨.text, some (.text (String.ofList value)), ⟨begin, stop⟩⟩ :: lexer.emitted })) ∧
      let stop := Position.origin.afterAll (quote :: (body ++ [quote]))
      tokenize (String.ofList (quote :: (body ++ [quote]))) =
        .ok [⟨.text, some (.text (String.ofList value)), ⟨.origin, stop⟩⟩, .structural .newline stop,
          .structural .endOfProgram stop]) ∧
    ∀ (source : String) (lexer : Lexer) (body value rest : List Char), Lexer.IsReached source lexer →
      lexer.atLineStart = false → Token.Decodes quote body value → Token.BreaksOff rest →
      lexer.skipBlanks.scanner.rest = quote :: (body ++ rest) →
      ∃ fault, tokenize source = .error fault := by
  refine ⟨fun value => Token.exists_encodes quote, fun body value encodes => ?_, ?_⟩
  · have decodes := encodes.decodes quoted
    exact ⟨fun lexer after inside => Lexer.advance_literal quoted decodes inside,
      Lexer.tokenize_literal quoted decodes⟩
  · intro source lexer body value rest reached inside decodes breaks shape
    rw [reached.tokenize]
    exact Lexer.tokens_breaksOff quoted decodes inside breaks shape

/-- An escaped quote, a continued line, a tab and a line feed in one literal; and a bell that stands in
another. -/
theorem literals_read_back_continued :
    tokenize "'\\'\\\n\t\"\\n'" =
        .ok [⟨.text, some (.text "'\t\"\n"), ⟨.origin, ⟨2, 5⟩⟩⟩, .structural .newline ⟨2, 5⟩,
          .structural .endOfProgram ⟨2, 5⟩] ∧
      ∃ fault, tokenize "'a\x07b'" = .error fault := by
  obtain ⟨-, back, broken⟩ := literals_read_back (.inr rfl : '\'' = '"' ∨ '\'' = '\'')
  constructor
  · refine (back ['\\', '\'', '\\', '\n', '\t', '"', '\\', 'n'] ['\'', '\t', '"', '\n'] ?_).2
    refine .escape (by decide) (.continued (.raw (by decide) (by decide) (.inr rfl) ?_))
    exact .raw (by decide) (by decide) (.inl rfl) (.escape (by decide) .nothing)
  · refine broken _ _ ['a'] ['a'] ['\x07', 'b', '\''] (.single (Lexer.advance_ofString_quote (.inr rfl) _)) rfl
      (.plain (by decide) (by decide) (by decide) (.inl rfl) .nothing) (.control rfl (by decide) _) rfl

end TabScript
