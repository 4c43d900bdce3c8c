import TabScript.Proofs.Lossless.Lexemes

/-! What of a text is accounted for by tokens.

The part that was passed is covered by tokens, each where its span says, or is white space, or belongs to a
comment. White space, a comment or a token more keeps this. -/

set_option autoImplicit false

namespace TabScript

/-- The token is spelled by a word that stands in the text where the span says. What stands behind the word
does not go on with it, and what stands in front of it neither. -/
structure Token.Written (source : List Char) (token : Token) (before word after : List Char) : Prop where
  split : source = before ++ (word ++ after)
  span : token.span = .ofWord before word
  lexeme : ∃ literal, token.value = some literal ∧ Lexeme after token.kind literal word
  begins : ∀ first ∈ word.head?, Text.isWordPart first = true →
    ∀ last ∈ before.getLast?, Text.isWordPart last = false

/-- The tokens that are written in a text, without those that stand for layout. -/
def Token.contentOf (tokens : List Token) : List Token :=
  tokens.filter fun token => token.kind.isContent

def Token.Cover (tokens : List Token) (place : Position) : Prop :=
  ∃ token ∈ tokens, token.span.start ≤ place ∧ place.Before token.span.stop

/-- Behind these characters stands a comment, which runs to the end of its line and holds no part of a
token. -/
structure Comment (source : List Char) (tokens : List Token) (before note : List Char) : Prop where
  inLine : '\n' ∉ note
  ends : ∃ after, source = before ++ '#' :: (note ++ after) ∧ ∀ next ∈ after.head?, next = '\n'
  apart : ∀ token ∈ tokens,
    token.span.stop ≤ .behind before ∨ .behind (before ++ '#' :: note) ≤ token.span.start

structure Accounted (source passed : List Char) (tokens : List Token) : Prop where
  written : ∀ token ∈ tokens, ∃ before word after, token.Written source before word after ∧
    before ++ word <+: passed
  ordered : tokens.Pairwise fun later earlier => earlier.span.stop ≤ later.span.start
  outside : ∀ before character, before ++ [character] <+: passed →
    Token.Cover tokens (.behind before) ∨ Text.isBlank character = true ∨
      ∃ earlier note, Comment source tokens earlier note ∧ earlier <+: before ∧
        before ++ [character] <+: earlier ++ '#' :: note ∧ earlier ++ '#' :: note <+: passed
  parted : ∀ after, source = passed ++ after → ∀ next ∈ after.head?, Text.isWordPart next = true →
    ∀ last ∈ passed.getLast?, Text.isWordPart last = false

namespace Token

theorem contentOf_append (first second : List Token) :
    contentOf (first ++ second) = contentOf first ++ contentOf second := List.filter_append ..

theorem contentOf_reverse (tokens : List Token) :
    contentOf tokens.reverse = (contentOf tokens).reverse := List.filter_reverse ..

theorem contentOf_cons {token : Token} (content : token.kind.isContent = true) (tokens : List Token) :
    contentOf (token :: tokens) = token :: contentOf tokens := List.filter_cons_of_pos content

theorem contentOf_layout {tokens : List Token}
    (layout : ∀ token ∈ tokens, token.kind.isContent = false) : contentOf tokens = [] :=
  List.filter_eq_nil_iff.2 fun token inside => by simp [layout token inside]

theorem Lexeme.ne_nil {after word : List Char} {kind : TokenKind} {literal : Literal}
    (lexeme : Lexeme after kind literal word) : word ≠ [] := by
  cases lexeme with
  | truth truth => cases truth <;> decide
  | word => exact List.cons_ne_nil _ _
  | number some_ => simp [Number.pointed, some_]
  | text => exact List.cons_ne_nil _ _
  | symbol known =>
    have all : ∀ symbol ∈ symbols, symbol ≠ [] := by decide
    exact all _ known

theorem Lexeme.parted {after word : List Char} {kind : TokenKind} {literal : Literal}
    (lexeme : Lexeme after kind literal word) : ∀ next ∈ after.head?, Text.isWordPart next = true →
      ∀ last ∈ word.getLast?, Text.isWordPart last = false := by
  intro next head part last ends
  cases lexeme with
  | truth _ stops | word _ _ _ stops | number _ _ stops =>
    have stop := stops next head
    rw [part] at stop
    cases stop
  | text quote_ =>
    rw [← List.cons_append, List.getLast?_concat] at ends
    cases ends
    rcases quote_ with rfl | rfl <;> decide
  | symbol known =>
    have all : symbols.all (fun symbol => symbol.getLast?.all fun last => !Text.isWordPart last) =
        true := by decide
    have whole := List.all_eq_true.1 all word known
    rw [ends] at whole
    simpa using whole

theorem Written.start_before_stop {source before word after : List Char} {token : Token}
    (written : token.Written source before word after) :
    token.span.start.Before token.span.stop := by
  obtain ⟨literal, -, lexeme⟩ := written.lexeme
  rw [written.span]
  exact Position.behind_before before lexeme.ne_nil

end Token

theorem Text.isWordPart_of_isBlank {character : Char} (blank : isBlank character = true) :
    isWordPart character = false := by
  cases part : isWordPart character with
  | false => rfl
  | true =>
    rw [Token.isBlank_eq_false part] at blank
    cases blank

theorem prefix_append_cases {before passed piece : List Char} {character : Char}
    (begins : before ++ [character] <+: passed ++ piece) :
    before ++ [character] <+: passed ∨
      ∃ taken rest, before = passed ++ taken ∧ piece = taken ++ character :: rest := by
  rcases List.prefix_or_prefix_of_prefix begins (List.prefix_append passed piece) with within | ⟨more, same⟩
  · exact .inl within
  rcases List.eq_nil_or_concat more with rfl | ⟨taken, last, rfl⟩
  · rw [List.append_nil] at same
    exact .inl (same ▸ List.prefix_refl _)
  · rw [List.concat_eq_append, ← List.append_assoc] at same
    obtain ⟨rfl, ends⟩ := List.append_inj' same rfl
    cases ends
    rw [List.append_assoc] at begins
    obtain ⟨rest, rfl⟩ := (List.prefix_append_right_inj _).1 begins
    exact .inr ⟨taken, rest, rfl, by rw [List.append_assoc]; rfl⟩

theorem Position.behind_le_of_prefix {first second : List Char} (begins : first <+: second) :
    behind first ≤ behind second := by
  obtain ⟨more, rfl⟩ := begins
  exact behind_le first more

namespace Accounted

variable {source passed : List Char} {tokens : List Token}

theorem nothing (source : List Char) : Accounted source [] [] where
  written := by simp
  ordered := .nil
  outside before character begins := by simp at begins
  parted := by simp

theorem stop_le (accounted : Accounted source passed tokens) {token : Token} (inside : token ∈ tokens) :
    token.span.stop ≤ .behind passed := by
  obtain ⟨before, word, after, written, within⟩ := accounted.written token inside
  rw [written.span]
  exact Position.behind_le_of_prefix within

theorem pass (accounted : Accounted source passed tokens) {piece : List Char}
    (free : ∀ taken character rest, piece = taken ++ character :: rest →
      Text.isBlank character = true ∨
        ∃ earlier note, Comment source tokens earlier note ∧ earlier <+: passed ++ taken ∧
          passed ++ taken ++ [character] <+: earlier ++ '#' :: note ∧
          earlier ++ '#' :: note <+: passed ++ piece)
    (parted : ∀ after, source = passed ++ piece ++ after → ∀ next ∈ after.head?,
      Text.isWordPart next = true → ∀ last ∈ (passed ++ piece).getLast?, Text.isWordPart last = false) :
    Accounted source (passed ++ piece) tokens where
  written token inside := by
    obtain ⟨before, word, after, written, within⟩ := accounted.written token inside
    exact ⟨before, word, after, written, within.trans (List.prefix_append _ _)⟩
  ordered := accounted.ordered
  outside before character begins := by
    rcases prefix_append_cases begins with within | ⟨taken, rest, rfl, split⟩
    · rcases accounted.outside before character within with covered | blank |
        ⟨earlier, note, comment, starts, holds, ends⟩
      · exact .inl covered
      · exact .inr (.inl blank)
      · exact .inr (.inr ⟨earlier, note, comment, starts, holds, ends.trans (List.prefix_append _ _)⟩)
    · exact .inr (free taken character rest split)
  parted := parted

theorem blank (accounted : Accounted source passed tokens) {character : Char}
    (blank : Text.isBlank character = true) : Accounted source (passed ++ [character]) tokens := by
  refine accounted.pass (fun taken other rest split => .inl ?_) fun after _ next _ _ last ends => ?_
  · have inside : other ∈ [character] := split ▸ List.mem_append_right _ List.mem_cons_self
    rwa [List.mem_singleton.1 inside]
  · rw [List.getLast?_concat] at ends
    cases ends
    exact Text.isWordPart_of_isBlank blank

theorem blanks (accounted : Accounted source passed tokens) {run : List Char}
    (all : ∀ character ∈ run, Text.isBlank character = true) :
    Accounted source (passed ++ run) tokens := by
  induction run generalizing passed with
  | nil =>
    rw [List.append_nil]
    exact accounted
  | cons character run ih =>
    rw [List.append_cons]
    refine ih (accounted.blank (all character List.mem_cons_self)) fun other inside => ?_
    exact all other (List.mem_cons_of_mem _ inside)

theorem comment (accounted : Accounted source passed tokens) {note after : List Char}
    (split : source = passed ++ '#' :: (note ++ after)) (inLine : '\n' ∉ note)
    (ends : ∀ next ∈ after.head?, next = '\n') : Accounted source (passed ++ '#' :: note) tokens := by
  have whole : Comment source tokens passed note :=
    ⟨inLine, ⟨after, split, ends⟩, fun token inside => .inl (accounted.stop_le inside)⟩
  refine accounted.pass (fun taken character rest same => .inr ?_)
    fun other split' next head part => ?_
  · refine ⟨passed, note, whole, List.prefix_append _ _, ?_, List.prefix_refl _⟩
    rw [same, List.append_assoc, List.prefix_append_right_inj]
    exact ⟨rest, by rw [List.append_assoc]; rfl⟩
  · -- only the end of the line can follow, and it is no part of a word
    have same : other = after := by
      rw [split, List.append_assoc, List.cons_append] at split'
      exact (List.append_cancel_left (List.cons.inj (List.append_cancel_left split')).2).symm
    obtain rfl := ends next (same ▸ head)
    cases part

theorem token (accounted : Accounted source passed tokens) {token : Token} {word after : List Char}
    (split : source = passed ++ (word ++ after)) (span : token.span = .ofWord passed word)
    (lexeme : ∃ literal, token.value = some literal ∧ Token.Lexeme after token.kind literal word) :
    Accounted source (passed ++ word) (token :: tokens) := by
  obtain ⟨literal, value, spells⟩ := lexeme
  have written : token.Written source passed word after := by
    refine ⟨split, span, ⟨literal, value, spells⟩, fun first head => accounted.parted _ split first ?_⟩
    exact List.head?_append.trans (by rw [head, Option.some_or])
  refine ⟨?_, ?_, ?_, ?_⟩
  · intro other inside
    rcases List.mem_cons.1 inside with rfl | inside
    · exact ⟨passed, word, after, written, List.prefix_refl _⟩
    · obtain ⟨before, word', after', written', within⟩ := accounted.written other inside
      exact ⟨before, word', after', written', within.trans (List.prefix_append _ _)⟩
  · refine List.pairwise_cons.2 ⟨fun other inside => ?_, accounted.ordered⟩
    rw [span]
    exact accounted.stop_le inside
  · intro before character begins
    -- a character stands in front of the new word, where all is accounted for, or it belongs to the word
    rcases prefix_append_cases begins with within | ⟨taken, rest, rfl, split'⟩
    · rcases accounted.outside before character within with ⟨other, inside, covers⟩ | blank |
        ⟨earlier, note, comment, starts, holds, ends⟩
      · exact .inl ⟨other, List.mem_cons_of_mem _ inside, covers⟩
      · exact .inr (.inl blank)
      · refine .inr (.inr ⟨earlier, note, ⟨comment.inLine, comment.ends, fun other inside => ?_⟩, starts,
          holds, ends.trans (List.prefix_append _ _)⟩)
        rcases List.mem_cons.1 inside with rfl | inside
        · rw [span]
          exact .inr (Position.behind_le_of_prefix ends)
        · exact comment.apart other inside
    · refine .inl ⟨token, List.mem_cons_self, ?_, ?_⟩
      · rw [span]
        exact Position.behind_le passed taken
      · rw [span, Span.ofWord, split', ← List.append_assoc]
        exact Position.behind_before _ (List.cons_ne_nil _ _)
  · intro other split' next head part last ends
    have same : other = after := by
      rw [split, ← List.append_assoc] at split'
      exact (List.append_cancel_left split').symm
    obtain ⟨end_, own⟩ := Option.ne_none_iff_exists'.1 (mt List.getLast?_eq_none_iff.1 spells.ne_nil)
    rw [List.getLast?_append, own, Option.some_or] at ends
    cases ends
    exact spells.parted next (same ▸ head) part _ own

end Accounted

end TabScript
