import TabScript.Proofs.Failable
import TabScript.Proofs.Layout.Logical
import TabScript.Proofs.Lossless.Places

/-! The characters that spell a token.

A word or a number goes on for as long as it can, and a symbol is the longest one that stands there. What is
written between quotes is decoded character by character. -/

set_option autoImplicit false

namespace TabScript

namespace Token

def escapes : List (Char × Char) :=
  [('\\', '\\'), ('\'', '\''), ('"', '"'), ('a', '\x07'), ('b', '\x08'), ('f', '\x0c'), ('n', '\n'),
    ('r', '\r'), ('t', '\t')]

/-- The characters between quotes, and the text that they stand for. The end of a line stands for nothing
behind a backslash, and a backslash without a meaning stands for itself. -/
inductive Decodes (quote : Char) : List Char → List Char → Prop where
  | nothing : Decodes quote [] []
  | plain {character : Char} {body value : List Char} (open_ : character ≠ quote)
    (inLine : character ≠ '\n') (literal : character ≠ '\\')
    (visible : Text.isControl character = false ∨ character = '\t') (others : Decodes quote body value) :
    Decodes quote (character :: body) (character :: value)
  | continued {body value : List Char} (others : Decodes quote body value) :
    Decodes quote ('\\' :: '\n' :: body) value
  | escape {character meaning : Char} {body value : List Char} (known : (character, meaning) ∈ escapes)
    (others : Decodes quote body value) :
    Decodes quote ('\\' :: character :: body) (meaning :: value)
  | kept {character : Char} {body value : List Char} (inLine : character ≠ '\n')
    (unknown : ∀ meaning, (character, meaning) ∉ escapes) (others : Decodes quote body value) :
    Decodes quote ('\\' :: character :: body) ('\\' :: character :: value)

def symbols : List (List Char) :=
  ["==".toList, "!=".toList, "<=".toList, ">=".toList, "**".toList] ++
    "=<>+-*/&|%^~!,:()[]\x7b\x7d".toList.map fun character => [character]

inductive Classified (word : String) : TokenKind → Prop where
  | operator (known : word ∈ wordOperators) : Classified word .punctuator
  | keyword (known : word ∈ keywords) : Classified word .keyword
  | name (notOperator : word ∉ wordOperators) (notKeyword : word ∉ keywords) (notTrue : word ≠ "True")
    (notFalse : word ≠ "False") : Classified word .identifier

/-- How a token with a value is spelled, if these characters stand behind it. -/
inductive Lexeme (after : List Char) : TokenKind → Literal → List Char → Prop where
  | truth (truth : Bool) (ends : ∀ next ∈ after.head?, Text.isWordPart next = false) :
    Lexeme after .boolean (.boolean truth) (if truth then "True".toList else "False".toList)
  | word {kind : TokenKind} {first : Char} {others : List Char}
    (kind_ : Classified (String.ofList (first :: others)) kind) (start : Text.isWordStart first = true)
    (parts : ∀ character ∈ others, Text.isWordPart character = true)
    (ends : ∀ next ∈ after.head?, Text.isWordPart next = false) :
    Lexeme after kind (.text (String.ofList (first :: others))) (first :: others)
  | number {whole fraction : List Char} (some_ : whole ≠ [])
    (digits : ∀ digit ∈ whole ++ fraction, digit.isDigit = true)
    (ends : ∀ next ∈ after.head?, Text.isWordPart next = false)
    (unbroken : fraction = [] → ∀ digit rest, after = '.' :: digit :: rest → digit.isDigit = false) :
    Lexeme after .number (.number (Number.ofDigits whole fraction)) (Number.pointed whole fraction)
  | text {quote : Char} {body value : List Char} (quote_ : quote = '"' ∨ quote = '\'')
    (decodes : Decodes quote body value) :
    Lexeme after .text (.text (String.ofList value)) (quote :: (body ++ [quote]))
  | symbol {word : List Char} (known : word ∈ symbols)
    (longest : ∀ other ∈ symbols, other <+: word ++ after → other.length ≤ word.length) :
    Lexeme after .punctuator (.text (String.ofList word)) word

structure Spelled (scanner : Scanner) (token : Token) (word : List Char) (behind : Scanner) : Prop where
  split : scanner.rest = word ++ behind.rest
  place : behind.position = scanner.position.afterAll word
  span : token.span = ⟨scanner.position, behind.position⟩
  lexeme : ∃ literal, token.value = some literal ∧ Lexeme behind.rest token.kind literal word

variable {scanner behind : Scanner} {token : Token} {first : Char} {rest : List Char}

theorem lexeme_ofWord {after word : List Char} {first : Char} {others : List Char} (span : Span)
    (shape : word = first :: others) (start : Text.isWordStart first = true)
    (parts : ∀ character ∈ others, Text.isWordPart character = true)
    (ends : ∀ next ∈ after.head?, Text.isWordPart next = false) :
    ∃ literal, (ofWord (String.ofList word) span).value = some literal ∧
      Lexeme after (ofWord (String.ofList word) span).kind literal word := by
  have named : ∀ kind, Classified (String.ofList word) kind →
      Lexeme after kind (.text (String.ofList word)) word := by
    intro kind classified
    subst shape
    exact .word classified start parts ends
  unfold ofWord
  split
  · rename_i same
    rw [← String.toList_ofList (l := word), same]
    exact ⟨_, rfl, .truth true ends⟩
  rename_i notTrue
  split
  · rename_i same
    rw [← String.toList_ofList (l := word), same]
    exact ⟨_, rfl, .truth false ends⟩
  rename_i notFalse
  split
  · rename_i known
    exact ⟨_, rfl, named _ (.operator (List.contains_iff_mem.1 known))⟩
  rename_i notOperator
  split
  · rename_i known
    exact ⟨_, rfl, named _ (.keyword (List.contains_iff_mem.1 known))⟩
  · rename_i notKeyword
    refine ⟨_, rfl, named _ (.name ?_ ?_ notTrue notFalse)⟩
    · exact fun known => notOperator (List.contains_iff_mem.2 known)
    · exact fun known => notKeyword (List.contains_iff_mem.2 known)

theorem spelled_readWord (shape : scanner.rest = first :: rest)
    (start : Text.isWordStart first = true) :
    Spelled scanner (readWord scanner).1 (scanner.run Text.isWordPart) (readWord scanner).2 := by
  have part := Text.isWordPart_of_isWordStart start
  have run : scanner.run Text.isWordPart = first :: rest.takeWhile Text.isWordPart := by
    rw [Scanner.run, shape, List.takeWhile_cons_of_pos part]
  have span : ∀ word span, (ofWord word span).span = span := by
    intro word span
    unfold ofWord
    split
    · rfl
    split
    · rfl
    split
    · rfl
    split <;> rfl
  exact {
    split := List.takeWhile_append_dropWhile.symm
    place := rfl
    span := span _ _
    lexeme := lexeme_ofWord _ run start
      (fun character inside => List.all_eq_true.1 List.all_takeWhile character inside)
      (Scanner.head?_skipWhile scanner _) }

theorem isWordPart_cases (character : Char) :
    Text.isWordPart character = (character.isDigit || Text.isWordStart character) := by
  simp only [Text.isWordPart, Text.isWordStart, Char.isAlphanum]
  cases character.isAlpha <;> cases character.isDigit <;> rfl

theorem readFraction_spec (scanner : Scanner) :
    scanner.rest = (if (readFraction scanner).1 = [] then [] else '.' :: (readFraction scanner).1) ++
        (readFraction scanner).2.rest ∧
      (readFraction scanner).2.position = scanner.position.afterAll
        (if (readFraction scanner).1 = [] then [] else '.' :: (readFraction scanner).1) ∧
      (∀ digit ∈ (readFraction scanner).1, digit.isDigit = true) ∧
      ((∀ next ∈ scanner.rest.head?, next.isDigit = false) →
        ∀ next ∈ (readFraction scanner).2.rest.head?, next.isDigit = false) ∧
      ((readFraction scanner).1 = [] → ∀ digit rest,
        (readFraction scanner).2.rest = '.' :: digit :: rest → digit.isDigit = false) := by
  obtain ⟨characters, position⟩ := scanner
  unfold readFraction
  dsimp only
  split
  · rename_i digit rest
    split
    · rename_i isDigit
      have some_ : (digit :: rest).takeWhile Char.isDigit ≠ [] := by
        rw [List.takeWhile_cons_of_pos isDigit]
        exact List.cons_ne_nil _ _
      simp only [Scanner.advance, Scanner.run, Scanner.skipWhile, some_, if_false]
      refine ⟨?_, rfl, ?_, fun _ => ?_, fun none_ => none_.elim⟩
      · rw [List.cons_append, List.takeWhile_append_dropWhile]
      · exact fun other inside => List.all_eq_true.1 List.all_takeWhile other inside
      · exact Scanner.head?_skipWhile ⟨digit :: rest, position⟩ Char.isDigit
    · rename_i notDigit
      refine ⟨rfl, rfl, by simp, fun ends => ends, fun _ other tail same => ?_⟩
      cases same
      exact Bool.eq_false_iff.2 notDigit
  · rename_i noFraction
    refine ⟨rfl, rfl, by simp, fun ends => ends, fun _ other tail same => ?_⟩
    exact absurd same (noFraction other tail)

theorem spelled_readNumber (shape : scanner.rest = first :: rest) (digit : first.isDigit = true)
    (read : readNumber scanner = .ok (token, behind)) :
    ∃ word, Spelled scanner token word behind := by
  unfold readNumber at read
  dsimp only at read
  obtain ⟨split_, place, digits, ends, unbroken⟩ := readFraction_spec (scanner.skipWhile Char.isDigit)
  generalize readFraction (scanner.skipWhile Char.isDigit) = fraction at *
  split at read
  · cases read
  rename_i wordless
  cases read
  have some_ : scanner.run Char.isDigit ≠ [] := by
    rw [Scanner.run, shape, List.takeWhile_cons_of_pos digit]
    exact List.cons_ne_nil _ _
  have whole : scanner.rest = scanner.run Char.isDigit ++ (scanner.skipWhile Char.isDigit).rest :=
    List.takeWhile_append_dropWhile.symm
  refine ⟨Number.pointed (scanner.run Char.isDigit) fraction.1, ?_, ?_, rfl, _, rfl, ?_⟩
  · rw [whole, split_, Number.pointed, List.append_assoc]
  · rw [place, Number.pointed, Position.afterAll_append]
    rfl
  · refine .number some_ (fun other inside => ?_) (fun next head => ?_) unbroken
    · rcases List.mem_append.1 inside with inside | inside
      · exact Scanner.of_mem_run Char.isDigit inside
      · exact digits other inside
    · -- neither a digit, as all of them were read, nor the beginning of a word
      have noDigit := ends (Scanner.head?_skipWhile scanner Char.isDigit) next head
      have noWord : Text.isWordStart next = false := by
        have head' : fraction.2.rest.head? = some next := head
        rw [Scanner.peek, head', Option.any_some] at wordless
        exact Bool.eq_false_iff.2 wordless
      rw [isWordPart_cases, noDigit, noWord]
      rfl

theorem Decodes.unescape {quote : Char} {body value : List Char} (others : Decodes quote body value)
    (character : Char) :
    Decodes quote ('\\' :: character :: body) (Token.unescape character ++ value) := by
  unfold Token.unescape
  split
  case h_1 => exact .continued others
  case h_11 notLine h2 h3 h4 h5 h6 h7 h8 h9 h10 =>
    refine .kept notLine (fun meaning known => ?_) others
    simp only [escapes, List.mem_cons, Prod.mk.injEq, List.not_mem_nil, or_false] at known
    rcases known with same | same | same | same | same | same | same | same | same
    all_goals
      have := same.1
      contradiction
  all_goals exact .escape (by decide) others

theorem readTextBody_spec {quote : Char} {start : Position} {input : List Char} {position : Position}
    {sofar : List Char} {characters : String}
    (read : readTextBody quote start input position sofar = .ok (characters, behind)) :
    ∃ body value, input = body ++ quote :: behind.rest ∧
      behind.position = position.afterAll (body ++ [quote]) ∧ Decodes quote body value ∧
      characters = String.ofList (sofar.reverse ++ value) := by
  fun_induction readTextBody quote start input position sofar with
  | case1 => cases read
  | case2 => cases read
  | case3 rest position sofar notLine =>
    cases read
    exact ⟨[], [], rfl, rfl, .nothing, by rw [List.append_nil]⟩
  | case4 => cases read
  | case5 position sofar escaped after notLine notQuote ih =>
    obtain ⟨body, value, split_, place, decodes, whole⟩ := ih read
    refine ⟨'\\' :: escaped :: body, _, by rw [split_]; rfl, place, decodes.unescape escaped, ?_⟩
    rw [whole, List.reverse_append, List.reverse_reverse, List.append_assoc]
  | case6 => cases read
  | case7 character rest position sofar notLine notQuote notEscape visible ih =>
    obtain ⟨body, value, split_, place, decodes, whole⟩ := ih read
    refine ⟨character :: body, character :: value, by rw [split_]; rfl, place, ?_, ?_⟩
    · refine .plain notQuote notLine notEscape ?_ decodes
      simp only [Bool.and_eq_true, bne_iff_ne, not_and, Classical.not_not] at visible
      cases hidden : Text.isControl character with
      | false => exact .inl rfl
      | true => exact .inr (visible hidden)
    · rw [whole, List.reverse_cons, List.append_assoc]
      rfl

theorem spelled_readText (shape : scanner.rest = first :: rest) (quote : first = '"' ∨ first = '\'')
    (read : readText first scanner = .ok (token, behind)) :
    ∃ word, Spelled scanner token word behind := by
  obtain ⟨⟨characters, last⟩, body, made⟩ := except_bind_ok read
  cases made
  obtain ⟨text, value, split_, place, decodes, rfl⟩ := readTextBody_spec body
  obtain ⟨_, position⟩ := scanner
  obtain rfl := shape
  refine ⟨first :: (text ++ [first]), ?_, place, rfl, _, rfl, ?_⟩
  · change rest = _ at split_
    rw [split_]
    simp
  · exact .text quote decodes

theorem symbols_eq : symbols = (compounds.map fun pair => [pair.1, pair.2]) ++
    "=<>+-*/&|%^~!,:()[]\x7b\x7d".toList.map fun character => [character] := rfl

theorem longest_of_single {character : Char} {after : List Char}
    (alone : ∀ next rest, after = next :: rest → (character, next) ∉ compounds) :
    ∀ other ∈ symbols, other <+: [character] ++ after → other.length ≤ 1 := by
  intro other known begins
  rw [symbols_eq] at known
  rcases List.mem_append.1 known with double | single
  · obtain ⟨⟨one, next⟩, compound, rfl⟩ := List.mem_map.1 double
    rw [List.singleton_append, List.cons_prefix_cons] at begins
    obtain ⟨rfl, rest, rfl⟩ := begins
    exact absurd compound (alone next rest rfl)
  · obtain ⟨one, -, rfl⟩ := List.mem_map.1 single
    exact Nat.le_refl 1

theorem length_le_two {symbol : List Char} (known : symbol ∈ symbols) : symbol.length ≤ 2 := by
  have all : ∀ symbol ∈ symbols, symbol.length ≤ 2 := by decide
  exact all symbol known

theorem spelled_readOperator (shape : scanner.rest = first :: rest)
    (operator : isOperatorStart first = true) :
    ∃ word, Spelled scanner (readOperator first scanner).1 word (readOperator first scanner).2 := by
  have known : [first] ∈ symbols := by
    have all : ['=', '<', '>', '+', '-', '*', '/', '&', '|', '%', '^', '~', '!'].all
        (fun character => symbols.contains [character]) = true := by decide
    exact List.contains_iff_mem.1 (List.all_eq_true.1 all first (List.contains_iff_mem.1 operator))
  obtain ⟨_, position⟩ := scanner
  obtain rfl := shape
  unfold readOperator
  simp only [Scanner.advance]
  split
  · rename_i second more
    split
    · rename_i compound
      have pair : [first, second] ∈ symbols := by
        have all : ∀ pair ∈ compounds, [pair.1, pair.2] ∈ symbols := by decide
        exact all _ (List.contains_iff_mem.1 compound)
      refine ⟨[first, second], rfl, rfl, rfl, _, rfl, .symbol pair fun other member _ => ?_⟩
      exact length_le_two member
    · rename_i alone
      refine ⟨[first], rfl, rfl, rfl, _, rfl, .symbol known (longest_of_single ?_)⟩
      intro next tail same compound
      cases same
      exact alone (List.contains_iff_mem.2 compound)
  · refine ⟨[first], rfl, rfl, rfl, _, rfl, .symbol known (longest_of_single ?_)⟩
    intro next tail same
    cases same

theorem spelled_punctuation (shape : scanner.rest = first :: rest)
    (punctuation : isPunctuation first = true) :
    Spelled scanner
      ⟨.punctuator, some (.text first.toString), ⟨scanner.position, scanner.advance.position⟩⟩ [first]
      scanner.advance := by
  have member := List.contains_iff_mem.1 punctuation
  have known : [first] ∈ symbols := by
    have all : [',', ':', '(', ')', '[', ']', '\x7b', '\x7d'].all
        (fun character => symbols.contains [character]) = true := by decide
    exact List.contains_iff_mem.1 (List.all_eq_true.1 all first member)
  have single : ∀ next, (first, next) ∉ compounds := by
    have all : [',', ':', '(', ')', '[', ']', '\x7b', '\x7d'].all
        (fun character => !(compounds.map Prod.fst).contains character) = true := by decide
    intro next compound
    have begins := List.contains_iff_mem.2 (List.mem_map_of_mem (f := Prod.fst) compound)
    have other := List.all_eq_true.1 all first member
    rw [begins] at other
    cases other
  obtain ⟨_, position⟩ := scanner
  obtain rfl := shape
  refine ⟨rfl, rfl, rfl, .text (String.ofList [first]), rfl, .symbol known ?_⟩
  exact longest_of_single fun next _ _ => single next

theorem spelled_read (shape : scanner.rest = first :: rest)
    (read : Token.read first scanner = .ok (token, behind)) :
    ∃ word, Spelled scanner token word behind := by
  unfold Token.read at read
  split at read
  · rename_i quote
    exact spelled_readText shape quote read
  split at read
  · rename_i digit
    exact spelled_readNumber shape digit read
  split at read
  · rename_i start
    have spelled := spelled_readWord shape start
    rw [Except.ok.inj read] at spelled
    exact ⟨_, spelled⟩
  split at read
  · rename_i punctuation
    cases read
    exact ⟨_, spelled_punctuation shape punctuation⟩
  split at read
  · rename_i operator
    have spelled := spelled_readOperator shape operator
    rw [Except.ok.inj read] at spelled
    exact spelled
  · cases read

end Token

end TabScript
