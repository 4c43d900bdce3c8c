import TabScript.Proofs.Printing.Script

/-! What a reader of tokens takes from the cursor, whatever the places of the tokens are. -/

set_option autoImplicit false

namespace TabScript

open Token (mark)

structure Cursor.Ahead (cursor : Cursor) (words : List Token) : Prop where
  upcoming : cursor.upcoming.map Token.bare = words
  ending : cursor.ending.kind = .endOfProgram

def Token.Heads (token : Token) : List Token → Prop
  | [] => token.kind = .endOfProgram
  | word :: _ => token.bare = word

namespace Token

def headIs (kind : TokenKind) (characters : String) : List Token → Bool
  | [] => false
  | word :: _ => word.is kind characters

def pull : List Token → Nat
  | [] => 0
  | word :: _ => Grammar.standard.precedence word.symbol

end Token

namespace Cursor.Ahead

variable {cursor : Cursor} {words : List Token}

theorem heads (ahead : cursor.Ahead words) : cursor.peek.Heads words := by
  obtain ⟨previous, upcoming, ending⟩ := cursor
  obtain ⟨rfl, last⟩ := ahead
  cases upcoming with
  | nil => exact last
  | cons token upcoming => rfl

theorem advance {word : Token} (ahead : cursor.Ahead (word :: words)) : cursor.advance.Ahead words := by
  obtain ⟨previous, upcoming, ending⟩ := cursor
  obtain ⟨same, last⟩ := ahead
  cases upcoming with
  | nil => cases same
  | cons token upcoming => exact ⟨(List.cons.inj same).2, last⟩

theorem skipNewlines (ahead : cursor.Ahead words) (other : ∀ word ∈ words.head?, word.kind ≠ .newline) :
    cursor.skipNewlines.Ahead words := by
  obtain ⟨previous, upcoming, ending⟩ := cursor
  obtain ⟨rfl, last⟩ := ahead
  refine ⟨?_, last⟩
  cases upcoming with
  | nil => rfl
  | cons token upcoming =>
    have different : token.kind ≠ .newline := other token.bare rfl
    rw [Cursor.skipNewlines]
    dsimp only
    rw [List.dropWhile_cons_of_neg (by simpa using different)]

end Cursor.Ahead

theorem Cursor.ofTokens_ended {content : List Token} {ending : Token} (kind : ending.kind = .endOfProgram)
    (others : ∀ token ∈ content, token.kind ≠ .endOfProgram) :
    ofTokens (content ++ [ending]) = ⟨none, content, ending⟩ := by
  rw [ofTokens]
  congr 1
  · rw [List.takeWhile_append_of_pos (by simpa using others), List.takeWhile_cons_of_neg (by simp [kind]),
      List.append_nil]
  · rw [List.find?_append, List.find?_eq_none.2 (by simpa using others), Option.none_or,
      List.find?_cons_of_pos (by simp [kind])]
    rfl

theorem Cursor.ahead_ofTokens {tokens words : List Token}
    (bare : tokens.map Token.bare = words ++ [Token.layout .endOfProgram])
    (inside : ∀ word ∈ words, word.kind ≠ .endOfProgram) : (Cursor.ofTokens tokens).Ahead words := by
  obtain ⟨before, last, rfl, rfl, ended⟩ := List.map_eq_append_iff.1 bare
  obtain ⟨token, rfl, ending⟩ := List.map_eq_singleton_iff.1 ended
  have kind : token.bare.kind = .endOfProgram := congrArg Token.kind ending
  have kind' : token.kind = .endOfProgram := kind
  have others : ∀ word ∈ before, word.kind ≠ .endOfProgram := fun word here =>
    inside word.bare (List.mem_map_of_mem here)
  rw [Cursor.ofTokens_ended kind' others]
  exact ⟨rfl, kind⟩

theorem Token.Heads.is_eq {token : Token} {words : List Token} (heads : token.Heads words)
    (kind : TokenKind) (proper : kind ≠ .endOfProgram) (characters : String) :
    token.is kind characters = Token.headIs kind characters words := by
  cases words with
  | nil =>
    have last : token.kind = .endOfProgram := heads
    simp [Token.is, Token.headIs, last, proper.symm]
  | cons word words =>
    obtain rfl : token.bare = word := heads
    rfl

theorem Token.Heads.precedence_eq {token : Token} {words : List Token} (heads : token.Heads words) :
    Grammar.standard.precedence token.symbol = Token.pull words := by
  cases words with
  | nil =>
    have last : token.kind = .endOfProgram := heads
    rw [Token.symbol, last]
    rfl
  | cons word words =>
    obtain rfl : token.bare = word := heads
    rfl

namespace Parser

variable {α β : Type}

def Reads (parser : Parser α) (words rest : List Token) (good : α → Prop) : Prop :=
  ∀ cursor : Cursor, cursor.Ahead (words ++ rest) →
    ∃ value after, parser cursor = .ok (value, after) ∧ good value ∧ after.Ahead rest

theorem Reads.mono {parser : Parser α} {words rest : List Token} {good fine : α → Prop}
    (reads : parser.Reads words rest good) (weaker : ∀ value, good value → fine value) :
    parser.Reads words rest fine := by
  intro cursor ahead
  obtain ⟨value, after, done, holds, left⟩ := reads cursor ahead
  exact ⟨value, after, done, weaker value holds, left⟩

theorem reads_pure {value : α} {rest : List Token} {good : α → Prop} (holds : good value) :
    Reads (pure value) [] rest good :=
  fun cursor ahead => ⟨value, cursor, rfl, holds, ahead⟩

theorem Reads.bind {parser : Parser α} {next : α → Parser β} {words more rest : List Token}
    {good : α → Prop} {fine : β → Prop} (first : parser.Reads words (more ++ rest) good)
    (others : ∀ value, good value → (next value).Reads more rest fine) :
    Reads (parser >>= next) (words ++ more) rest fine := by
  intro cursor ahead
  rw [List.append_assoc] at ahead
  obtain ⟨value, middle, done, holds, left⟩ := first cursor ahead
  obtain ⟨result, after, finished, fits, behind⟩ := others value holds middle left
  refine ⟨result, after, ?_, fits, behind⟩
  change (parser cursor >>= fun pair => next pair.1 pair.2) = _
  rw [done]
  exact finished

theorem Reads.after {parser : Parser α} {next : α → Parser β} {words rest : List Token}
    {good : α → Prop} {fine : β → Prop} (first : parser.Reads [] (words ++ rest) good)
    (others : ∀ value, good value → (next value).Reads words rest fine) :
    Reads (parser >>= next) words rest fine :=
  Reads.bind first others

theorem Reads.before {parser : Parser α} {next : α → Parser β} {words rest : List Token}
    {good : α → Prop} {fine : β → Prop} (first : parser.Reads words rest good)
    (others : ∀ value, good value → (next value).Reads [] rest fine) :
    Reads (parser >>= next) words rest fine := by
  have whole := @Reads.bind α β parser next words [] rest good fine first others
  rwa [List.append_nil] at whole

theorem reads_peek (rest : List Token) : Reads peek [] rest (fun token => token.Heads rest) :=
  fun cursor ahead => ⟨cursor.peek, cursor, rfl, ahead.heads, ahead⟩

theorem reads_next (word : Token) (rest : List Token) :
    Reads next [word] rest (fun token => token.bare = word) :=
  fun cursor ahead => ⟨cursor.peek, cursor.advance, rfl, ahead.heads, ahead.advance⟩

theorem reads_skipNewlines {rest : List Token} (other : ∀ word ∈ rest.head?, word.kind ≠ .newline) :
    Reads skipNewlines [] rest (fun _ => True) :=
  fun cursor ahead => ⟨(), cursor.skipNewlines, rfl, trivial, ahead.skipNewlines other⟩

theorem reads_atPunctuator (text : String) (rest : List Token) :
    Reads (atPunctuator text) [] rest (fun found => found = Token.headIs .punctuator text rest) :=
  fun cursor ahead => ⟨_, cursor, rfl, ahead.heads.is_eq _ (by decide) text, ahead⟩

theorem reads_atKeyword (text : String) (rest : List Token) :
    Reads (atKeyword text) [] rest (fun found => found = Token.headIs .keyword text rest) :=
  fun cursor ahead => ⟨_, cursor, rfl, ahead.heads.is_eq _ (by decide) text, ahead⟩

theorem reads_punctuator?_some (text : String) (rest : List Token) :
    Reads (punctuator? text) [mark text] rest
      (fun found => ∃ token, found = some token ∧ token.bare = mark text) := by
  refine (reads_atPunctuator text _).after fun found same => ?_
  obtain rfl : found = true := same.trans (by simp [Token.headIs, Token.is, mark, Token.text?])
  refine (reads_next (mark text) rest).before fun token read => ?_
  exact reads_pure ⟨token, rfl, read⟩

theorem reads_punctuator?_none {text : String} {rest : List Token}
    (other : Token.headIs .punctuator text rest = false) :
    Reads (punctuator? text) [] rest (fun found => found = none) := by
  refine (reads_atPunctuator text _).after fun found same => ?_
  obtain rfl : found = false := same.trans other
  exact reads_pure rfl

theorem reads_punctuator (text : String) (rest : List Token) :
    Reads (punctuator text) [mark text] rest (fun token => token.bare = mark text) := by
  refine (reads_punctuator?_some text rest).before fun found read => ?_
  obtain ⟨token, rfl, bare⟩ := read
  exact reads_pure bare

theorem reads_token (word : Token) (rest : List Token) :
    Reads (token word.kind) [word] rest (fun token => token.bare = word) := by
  refine (reads_peek _).after fun first heads => ?_
  have bare : first.bare = word := heads
  have kind : first.bare.kind = word.kind := congrArg Token.kind bare
  rw [if_pos (show first.kind = word.kind from kind)]
  exact reads_next word rest

end Parser

end TabScript
