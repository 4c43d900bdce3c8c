import TabScript.Proofs.Printing.Written

/-! Every token that is written is read again. -/

set_option autoImplicit false

namespace TabScript

namespace Token

def Rereads (token : Token) : Prop :=
  ∃ first others, token.written = first :: others ∧ Text.isBlank first = false ∧ first ≠ '#' ∧
    ∀ (blank : Char) (rest : List Char) (position : Position), blank = ' ' ∨ blank = '\n' →
      ∃ span behind, read first ⟨first :: (others ++ blank :: rest), position⟩ =
        .ok ({ token with span := span }, ⟨blank :: rest, behind⟩)

theorem code_of_isAlpha {character : Char} (letter : character.isAlpha = true) :
    0x41 ≤ character.toNat ∧ character.toNat ≤ 0x7A := by
  have ranges : (decide ('A'.val ≤ character.val ∧ character.val ≤ 'Z'.val) ||
      (decide ('a'.val ≤ character.val) && decide (character.val ≤ 'z'.val))) = true := letter
  simp only [Bool.or_eq_true, Bool.and_eq_true, decide_eq_true_eq, UInt32.le_iff_toNat_le] at ranges
  rcases ranges with upper | lower
  · exact ⟨upper.1, Nat.le_trans upper.2 (by decide)⟩
  · exact ⟨Nat.le_trans (by decide) lower.1, lower.2⟩

theorem code_of_isDigit {character : Char} (digit : character.isDigit = true) :
    0x30 ≤ character.toNat ∧ character.toNat ≤ 0x39 := by
  simp only [Char.isDigit, Bool.and_eq_true, decide_eq_true_eq, UInt32.le_iff_toNat_le] at digit
  exact digit

theorem isBlank_eq_false {character : Char} (part : Text.isWordPart character = true) :
    Text.isBlank character = false := by
  have code : 0x30 ≤ character.toNat ∧ character.toNat ≤ 0x7A := by
    simp only [Text.isWordPart, Char.isAlphanum, Bool.or_eq_true, beq_iff_eq] at part
    rcases part with (letter | digit) | rfl
    · exact ⟨Nat.le_trans (by decide) (code_of_isAlpha letter).1, (code_of_isAlpha letter).2⟩
    · exact ⟨(code_of_isDigit digit).1, Nat.le_trans (code_of_isDigit digit).2 (by decide)⟩
    · decide
  simp only [Text.isBlank, Bool.or_eq_false_iff, Bool.and_eq_false_iff, decide_eq_false_iff_not,
    beq_eq_false_iff_ne, Nat.not_le, ne_eq]
  omega

theorem run_eq {test : Char → Bool} {run : List Char}
    (passes : ∀ character ∈ run, test character = true) {stop : Char} (fails : test stop = false)
    (rest : List Char) :
    (run ++ stop :: rest).takeWhile test = run ∧
      (run ++ stop :: rest).dropWhile test = stop :: rest := by
  rw [List.takeWhile_append_of_pos passes, List.dropWhile_append_of_pos passes,
    List.takeWhile_cons_of_neg (by simp [fails]), List.dropWhile_cons_of_neg (by simp [fails]),
    List.append_nil]
  exact ⟨rfl, rfl⟩

theorem read_word {word : String} {first : Char} {others : List Char}
    (spelled : word.toList = first :: others) (start : Text.isWordStart first = true)
    (parts : ∀ character ∈ others, Text.isWordPart character = true) {blank : Char}
    (apart : blank = ' ' ∨ blank = '\n') (rest : List Char) (position : Position) :
    ∃ span behind, read first ⟨first :: (others ++ blank :: rest), position⟩ =
      .ok (ofWord word span, ⟨blank :: rest, behind⟩) := by
  have part : Text.isWordPart first = true := Text.isWordPart_of_isWordStart start
  have stop : Text.isWordPart blank = false := by rcases apart with rfl | rfl <;> rfl
  have notQuote : ¬(first = '"' ∨ first = '\'') := by
    rintro (rfl | rfl) <;> cases start
  have notDigit : ¬first.isDigit = true := by
    intro digit
    have code := code_of_isDigit digit
    simp only [Text.isWordStart, Bool.or_eq_true, beq_iff_eq] at start
    rcases start with letter | rfl
    · exact absurd (Nat.le_trans (code_of_isAlpha letter).1 code.2) (by decide)
    · exact absurd code.2 (by decide)
  have whole : ∀ character ∈ first :: others, Text.isWordPart character = true := by
    intro character inside
    rcases List.mem_cons.1 inside with rfl | inside
    · exact part
    · exact parts character inside
  obtain ⟨run, left⟩ := run_eq whole stop rest
  rw [List.cons_append] at run left
  rw [read, if_neg notQuote, if_neg notDigit, if_pos start]
  simp only [readWord, Scanner.run, Scanner.skipWhile, run, left, ← spelled, String.ofList_toList]
  exact ⟨_, _, rfl⟩

theorem rereads_word {token : Token} {word : String} {first : Char} {others : List Char}
    (spelled : word.toList = first :: others) (start : Text.isWordStart first = true)
    (parts : ∀ character ∈ others, Text.isWordPart character = true)
    (written : token.written = word.toList)
    (found : ∀ span, ofWord word span = { token with span := span }) : token.Rereads := by
  have solid := isBlank_eq_false (Text.isWordPart_of_isWordStart start)
  refine ⟨first, others, written.trans spelled, solid, ?_, fun blank rest position apart => ?_⟩
  · rintro rfl
    cases start
  · obtain ⟨span, behind, done⟩ := read_word spelled start parts apart rest position
    exact ⟨span, behind, done.trans (by rw [found])⟩

theorem rereads_name {word : String} (proper : IsName word) : (name word).Rereads := by
  obtain ⟨⟨first, others, spelled, start, parts⟩, ⟨notTrue, notFalse⟩, notOperator, notKeyword⟩ :=
    proper
  refine rereads_word spelled start parts rfl fun span => ?_
  have first : wordOperators.contains word = false := by simpa using notOperator
  have second : keywords.contains word = false := by simpa using notKeyword
  simp only [ofWord, notTrue, notFalse, first, second, if_false, Bool.false_eq_true]
  rfl

theorem rereads_keyword {word : String} (known : word ∈ keywords) : (keyword word).Rereads := by
  simp only [keywords, List.mem_cons, List.not_mem_nil, or_false] at known
  rcases known with rfl | rfl | rfl | rfl | rfl | rfl | rfl | rfl | rfl | rfl | rfl | rfl | rfl | rfl |
    rfl | rfl | rfl | rfl | rfl | rfl | rfl | rfl | rfl | rfl | rfl | rfl | rfl <;>
  exact rereads_word rfl rfl (List.all_eq_true.1 rfl) rfl fun _ => rfl

theorem rereads_mark {symbol : String} (known : symbol ∈ signs ++ wordOperators) :
    (mark symbol).Rereads := by
  rcases List.mem_append.1 known with known | known
  · simp only [signs, List.mem_cons, List.not_mem_nil, or_false] at known
    rcases known with rfl | rfl | rfl | rfl | rfl | rfl | rfl | rfl | rfl | rfl | rfl | rfl | rfl |
      rfl | rfl | rfl | rfl | rfl | rfl
    all_goals
      refine ⟨_, _, rfl, by decide, by decide, fun blank rest position apart => ?_⟩
      rcases apart with rfl | rfl <;> exact ⟨_, _, rfl⟩
  · simp only [wordOperators, List.mem_cons, List.not_mem_nil, or_false] at known
    rcases known with rfl | rfl | rfl | rfl <;>
    exact rereads_word rfl rfl (List.all_eq_true.1 rfl) rfl fun _ => rfl

theorem rereads_boolean (truth : Bool) : (constant (.boolean truth)).Rereads := by
  have spelled : ∃ word : String, word.toList = (constant (.boolean truth)).written ∧
      ∀ span, ofWord word span = { constant (.boolean truth) with span := span } := by
    cases truth
    · exact ⟨"False", rfl, fun _ => rfl⟩
    · exact ⟨"True", rfl, fun _ => rfl⟩
  obtain ⟨word, written, found⟩ := spelled
  cases truth
  · exact rereads_word written rfl (List.all_eq_true.1 rfl) written.symm found
  · exact rereads_word written rfl (List.all_eq_true.1 rfl) written.symm found

theorem solid_of_isDigit {first : Char} (digit : first.isDigit = true) :
    Text.isBlank first = false ∧ first ≠ '#' ∧ ¬(first = '"' ∨ first = '\'') := by
  refine ⟨isBlank_eq_false (by simp [Text.isWordPart, Char.isAlphanum, digit]), ?_, ?_⟩
  · rintro rfl
    cases digit
  · rintro (rfl | rfl) <;> cases digit

theorem readFraction_eq {digits : List Char} (all : ∀ digit ∈ digits, digit.isDigit = true)
    {blank : Char} (apart : blank = ' ' ∨ blank = '\n') (rest : List Char) (position : Position) :
    ∃ behind, readFraction
      ⟨(if digits = [] then [] else '.' :: digits) ++ blank :: rest, position⟩ =
        (digits, ⟨blank :: rest, behind⟩) := by
  cases digits with
  | nil => rcases apart with rfl | rfl <;> exact ⟨position, rfl⟩
  | cons digit digits =>
    have stop : blank.isDigit = false := by rcases apart with rfl | rfl <;> decide
    obtain ⟨run, left⟩ := run_eq all stop rest
    rw [if_neg (List.cons_ne_nil _ _)]
    simp only [readFraction, List.cons_append, all digit List.mem_cons_self, if_true, Scanner.advance,
      Scanner.run, Scanner.skipWhile]
    rw [← List.cons_append, run, left]
    exact ⟨_, rfl⟩

theorem rereads_number {number : Float} (plain : Number.Plain number)
    (again : Number.ReadsBack number) : (constant (.number number)).Rereads := by
  obtain ⟨written, some_, digits, behind⟩ := plain.text_eq
  unfold Number.ReadsBack at again
  generalize Number.whole number = before at *
  generalize Number.fraction number = after at *
  obtain ⟨first, others, rfl⟩ := List.exists_cons_of_ne_nil some_
  have digit := digits first List.mem_cons_self
  obtain ⟨solid, comment, quote⟩ := solid_of_isDigit digit
  refine ⟨first, others ++ if after = [] then [] else '.' :: after, written, solid, comment, ?_⟩
  intro blank rest position apart
  -- behind the digits stands the point or the blank, and neither of them is a digit
  have next : ∃ stop tail, (if after = [] then [] else '.' :: after) ++ blank :: rest = stop :: tail ∧
      stop.isDigit = false := by
    by_cases empty : after = []
    · refine ⟨blank, rest, by simp [empty], ?_⟩
      rcases apart with rfl | rfl <;> decide
    · exact ⟨'.', after ++ blank :: rest, by simp [empty], by decide⟩
  obtain ⟨stop, tail, same, fails⟩ := next
  obtain ⟨run, left⟩ := run_eq digits fails tail
  obtain ⟨last, fraction⟩ := readFraction_eq behind apart rest
    (position.afterAll (first :: others))
  have wordless : Text.isWordStart blank = false := by rcases apart with rfl | rfl <;> decide
  have split : first :: ((others ++ if after = [] then [] else '.' :: after) ++ blank :: rest) =
      first :: others ++ stop :: tail := by
    rw [← same, List.append_assoc, List.cons_append]
  rw [read, if_neg quote, if_pos digit, split]
  simp only [readNumber, Scanner.run, Scanner.skipWhile, run, left]
  rw [← same, fraction]
  simp only [Scanner.peek, List.head?_cons, Option.any_some, wordless, Bool.false_eq_true, if_false,
    again]
  exact ⟨_, _, rfl⟩

theorem readTextBody_escape {character : Char} (writable : Text.isWritable character = true)
    (start position : Position) (rest read : List Char) :
    ∃ behind, readTextBody '"' start (Text.escape character ++ rest) position read =
      readTextBody '"' start rest behind (character :: read) := by
  unfold Text.escape
  split
  case h_9 other notQuote notBackslash notBell notBackspace notFeed notLine notReturn notTab =>
    have visible : Text.isControl character = false := by
      simp only [Text.isWritable, Bool.or_eq_true, Bool.not_eq_true', List.contains_iff_mem,
        List.mem_cons, List.not_mem_nil, or_false] at writable
      rcases writable with visible | rfl | rfl | rfl | rfl | rfl | rfl
      · exact visible
      all_goals contradiction
    rw [List.singleton_append, readTextBody.eq_def]
    dsimp only
    rw [if_neg notLine, if_neg notQuote, if_neg notBackslash, if_neg (by simp [visible])]
    exact ⟨_, rfl⟩
  all_goals exact ⟨_, rfl⟩

theorem readTextBody_flatMap {characters : List Char}
    (writable : ∀ character ∈ characters, Text.isWritable character = true) (start position : Position)
    (rest read : List Char) :
    ∃ behind, readTextBody '"' start (characters.flatMap Text.escape ++ '"' :: rest) position read =
      .ok (String.ofList (read.reverse ++ characters), ⟨rest, behind⟩) := by
  induction characters generalizing position read with
  | nil =>
    rw [List.append_nil, List.flatMap_nil, List.nil_append, readTextBody.eq_def]
    exact ⟨_, rfl⟩
  | cons character characters ih =>
    obtain ⟨next, first⟩ := readTextBody_escape (writable character List.mem_cons_self) start position
      (characters.flatMap Text.escape ++ '"' :: rest) read
    obtain ⟨behind, others⟩ := ih (fun other inside => writable other (List.mem_cons_of_mem _ inside))
      next (character :: read)
    rw [List.flatMap_cons, List.append_assoc, first, others, List.reverse_cons, List.append_assoc]
    exact ⟨behind, rfl⟩

theorem rereads_text {characters : String}
    (writable : ∀ character ∈ characters.toList, Text.isWritable character = true) :
    (constant (.text characters)).Rereads := by
  refine ⟨'"', _, rfl, by decide, by decide, fun blank rest position apart => ?_⟩
  obtain ⟨behind, body⟩ := readTextBody_flatMap writable position (position.after '"') (blank :: rest) []
  rw [read, if_pos (.inl rfl), List.append_assoc, List.singleton_append]
  simp only [readText, Scanner.advance]
  rw [body]
  simp only [List.reverse_nil, List.nil_append, String.ofList_toList]
  exact ⟨_, _, rfl⟩

theorem Writable.rereads {token : Token} (writable : token.Writable)
    (again : ∀ number, token = .constant (.number number) → Number.ReadsBack number) :
    token.Rereads := by
  cases writable with
  | mark known => exact rereads_mark known
  | keyword known => exact rereads_keyword known
  | name proper => exact rereads_name proper
  | constant proper =>
    rename_i literal
    cases literal with
    | boolean truth => exact rereads_boolean truth
    | number number => exact rereads_number proper (again number rfl)
    | text characters => exact rereads_text proper

end Token

end TabScript
