import TabScript.Proofs.Printing.Printer

/-! What tokens say, apart from how they are written.

Parentheses that only group leave no trace in a tree, and neither does a comma in front of what closes a
list. What a bracket is for can be told from the token in front of it: behind an operand a parenthesis
begins the arguments of a call or the parameters of a definition, and elsewhere it groups; behind an
operand a square bracket begins an index, and elsewhere the items of an array. -/

set_option autoImplicit false

namespace TabScript.Token

/-- The token without its place. Negation is spelled in one way. -/
def plain (token : Token) : Token :=
  if token.is .punctuator "!" then mark "not" else token.bare

def opens (token : Token) : Bool := token.is .punctuator "(" || token.is .punctuator "["

def closes (token : Token) : Bool := token.is .punctuator ")" || token.is .punctuator "]"

def endsOperand (token : Token) : Bool :=
  match token.kind with
  | .identifier | .boolean | .number | .text => true
  | .keyword => token.text? == some "None"
  | .punctuator => token.closes
  | .newline | .indent | .dedent | .endOfProgram => false

/-- What remains of tokens without the parentheses that only group and the commas in front of what closes
a list. `ended` tells whether an operand ends in front of the tokens, and `lists`, of every bracket that is
open there, the innermost first, whether it holds arguments, items or parameters. -/
def essential : Bool → List Bool → List Token → List Token
  | _, _, [] => []
  | ended, lists, token :: rest =>
    if token.opens then
      if token.is .punctuator "(" && !ended then essential false (false :: lists) rest
      -- a parenthesis behind an operand and a square bracket elsewhere hold a list
      else token.plain :: essential false ((token.is .punctuator "(" == ended) :: lists) rest
    else if token.closes then
      if token.is .punctuator ")" && !lists.headD true then essential true lists.tail rest
      else token.plain :: essential true lists.tail rest
    else if token.is .punctuator "," && (lists.headD false && rest.head?.any closes) then
      essential false lists rest
    else token.plain :: essential token.endsOperand lists rest

def isLoose (token : Token) : Bool :=
  token.is .punctuator "(" || token.is .punctuator ")" || token.is .punctuator ","

theorem is_iff {token : Token} {kind : TokenKind} {characters : String} :
    token.is kind characters = true ↔
      token.kind = kind ∧ token.value = some (.text characters) := by
  obtain ⟨found, value, span⟩ := token
  simp only [is, Bool.and_eq_true, beq_iff_eq]
  constructor
  · rintro ⟨same, text⟩
    cases value with
    | none => cases text
    | some literal =>
      cases literal with
      | text other =>
        cases text
        exact ⟨same, rfl⟩
      | _ => cases text
  · rintro ⟨same, rfl⟩
    exact ⟨same, rfl⟩

section
variable {token : Token} {characters : String}

theorem plain_of_is {kind : TokenKind} (found : token.is kind characters = true)
    (other : characters ≠ "!") : token.plain = ⟨kind, some (.text characters), default⟩ := by
  obtain ⟨rfl, value⟩ := is_iff.1 found
  have sign : token.is .punctuator "!" = false := by
    rw [Bool.eq_false_iff]
    intro negation
    obtain ⟨-, text⟩ := is_iff.1 negation
    rw [value] at text
    cases text
    exact other rfl
  rw [plain, sign, if_neg (by decide), bare, value]

theorem not_is_of_is {kind other : TokenKind} {others : String}
    (found : token.is kind characters = true) (different : (kind, characters) ≠ (other, others)) :
    token.is other others = false := by
  rw [Bool.eq_false_iff]
  intro also
  obtain ⟨rfl, value⟩ := is_iff.1 found
  obtain ⟨rfl, text⟩ := is_iff.1 also
  rw [value] at text
  cases text
  exact different rfl

theorem not_is_of_kind {kind : TokenKind} (other : token.kind ≠ kind) :
    token.is kind characters = false := by
  rw [Bool.eq_false_iff]
  intro found
  exact other (is_iff.1 found).1

theorem not_is_of_notMem {marks : List String} (found : token.is .punctuator characters = true)
    (other : characters ∉ marks) {mark : String} (inside : mark ∈ marks) :
    token.is .punctuator mark = false := by
  apply not_is_of_is found
  intro same
  cases same
  exact other inside

theorem not_opens_of_is (found : token.is .punctuator characters = true)
    (other : characters ∉ ["(", "["]) : token.opens = false := by
  rw [opens, not_is_of_notMem found other (by decide), not_is_of_notMem found other (by decide),
    Bool.or_false]

theorem not_closes_of_is (found : token.is .punctuator characters = true)
    (other : characters ∉ [")", "]"]) : token.closes = false := by
  rw [closes, not_is_of_notMem found other (by decide), not_is_of_notMem found other (by decide),
    Bool.or_false]

theorem opens_of_is (found : token.is .punctuator characters = true)
    (bracket : characters = "(" ∨ characters = "[") : token.opens = true := by
  rcases bracket with rfl | rfl
  · rw [opens, found, Bool.true_or]
  · rw [opens, found, Bool.or_true]

theorem closes_of_is (found : token.is .punctuator characters = true)
    (bracket : characters = ")" ∨ characters = "]") : token.closes = true := by
  rcases bracket with rfl | rfl
  · rw [closes, found, Bool.true_or]
  · rw [closes, found, Bool.or_true]

theorem not_opens_of_closes (closing : token.closes = true) : token.opens = false := by
  rw [closes, Bool.or_eq_true] at closing
  rcases closing with found | found
  · exact not_opens_of_is found (by decide)
  · exact not_opens_of_is found (by decide)

end

/-! What remains, token by token. -/

section
variable {token : Token} {characters : String} {ended : Bool} {lists : List Bool} {rest : List Token}

theorem essential_call (found : token.is .punctuator "(" = true) :
    essential true lists (token :: rest) = mark "(" :: essential false (true :: lists) rest := by
  have opening : token.opens = true := opens_of_is found (.inl rfl)
  rw [essential, if_pos opening, if_neg (by simp), found, plain_of_is found (by decide)]
  rfl

theorem essential_group (found : token.is .punctuator "(" = true) :
    essential false lists (token :: rest) = essential false (false :: lists) rest := by
  have opening : token.opens = true := opens_of_is found (.inl rfl)
  rw [essential, if_pos opening, if_pos (by simp [found])]

theorem essential_bracket (found : token.is .punctuator "[" = true) :
    essential ended lists (token :: rest) = mark "[" :: essential false ((!ended) :: lists) rest := by
  have opening : token.opens = true := opens_of_is found (.inr rfl)
  have other : token.is .punctuator "(" = false := not_is_of_is found (by decide)
  rw [essential, if_pos opening, other, Bool.false_and, if_neg (by decide),
    plain_of_is found (by decide), Bool.false_beq]
  rfl

theorem essential_close (found : token.is .punctuator characters = true)
    (bracket : characters = ")" ∨ characters = "]") :
    essential ended (true :: lists) (token :: rest) = mark characters :: essential true lists rest := by
  have closing := closes_of_is found bracket
  have other : characters ≠ "!" := by rcases bracket with rfl | rfl <;> decide
  rw [essential, not_opens_of_closes closing, if_neg (by decide), if_pos closing, if_neg (by simp),
    plain_of_is found other]
  rfl

theorem essential_ungroup (found : token.is .punctuator ")" = true) :
    essential ended (false :: lists) (token :: rest) = essential true lists rest := by
  have closing : token.closes = true := closes_of_is found (.inl rfl)
  rw [essential, not_opens_of_closes closing, if_neg (by decide), if_pos closing,
    if_pos (by simp [found])]
  rfl

theorem essential_unbracket {list : Bool} (found : token.is .punctuator "]" = true) :
    essential ended (list :: lists) (token :: rest) = mark "]" :: essential true lists rest := by
  have closing : token.closes = true := closes_of_is found (.inr rfl)
  have other : token.is .punctuator ")" = false := not_is_of_is found (by decide)
  rw [essential, not_opens_of_closes closing, if_neg (by decide), if_pos closing, other, Bool.false_and,
    if_neg (by decide), plain_of_is found (by decide)]
  rfl

theorem essential_comma (found : token.is .punctuator "," = true)
    (more : rest.head?.any closes = false) :
    essential ended lists (token :: rest) = mark "," :: essential false lists rest := by
  have opening : token.opens = false := not_opens_of_is found (by decide)
  have closing : token.closes = false := not_closes_of_is found (by decide)
  have kind : token.kind = .punctuator := (is_iff.1 found).1
  rw [essential, opening, if_neg (by decide), closing, if_neg (by decide), more, Bool.and_false,
    Bool.and_false, if_neg (by decide), plain_of_is found (by decide), endsOperand, kind]
  simp only [closing]
  rfl

theorem essential_comma_closing (found : token.is .punctuator "," = true)
    (last : rest.head?.any closes = true) :
    essential ended (true :: lists) (token :: rest) = essential false (true :: lists) rest := by
  have opening : token.opens = false := not_opens_of_is found (by decide)
  have closing : token.closes = false := not_closes_of_is found (by decide)
  rw [essential, opening, if_neg (by decide), closing, if_neg (by decide), if_pos (by simp [found, last])]

structure IsWord (token : Token) : Prop where
  opens : token.opens = false
  closes : token.closes = false
  comma : token.is .punctuator "," = false

theorem IsWord.essential (word : token.IsWord) :
    essential ended lists (token :: rest) = token.plain :: essential token.endsOperand lists rest := by
  rw [Token.essential, word.opens, if_neg (by decide), word.closes, if_neg (by decide), word.comma,
    Bool.false_and, if_neg (by decide)]

theorem isWord_of_kind (other : token.kind ≠ .punctuator) : token.IsWord := by
  constructor
  · rw [Token.opens, not_is_of_kind other, not_is_of_kind other, Bool.or_false]
  · rw [Token.closes, not_is_of_kind other, not_is_of_kind other, Bool.or_false]
  · exact not_is_of_kind other

theorem isWord_of_is (found : token.is .punctuator characters = true)
    (other : characters ∉ ["(", "[", ")", "]", ","]) : token.IsWord := by
  constructor
  · rw [Token.opens, not_is_of_notMem found other (by decide), not_is_of_notMem found other (by decide),
      Bool.or_false]
  · rw [Token.closes, not_is_of_notMem found other (by decide), not_is_of_notMem found other (by decide),
      Bool.or_false]
  · exact not_is_of_notMem found other (by decide)

end

section
variable {token : Token} {characters : String} {ended : Bool} {lists : List Bool} {rest : List Token}

/-- An operator, a colon or an equals sign. Behind it an operand begins. -/
theorem essential_sign (found : token.is .punctuator characters = true)
    (other : characters ∉ ["(", "[", ")", "]", ","]) :
    essential ended lists (token :: rest) = token.plain :: essential false lists rest := by
  have word := isWord_of_is found other
  have operand : token.endsOperand = false := by
    rw [endsOperand, (is_iff.1 found).1]
    exact word.closes
  rw [word.essential, operand]

theorem essential_keyword (found : token.is .keyword characters = true) (other : characters ≠ "None") :
    essential ended lists (token :: rest) = keyword characters :: essential false lists rest := by
  obtain ⟨kind, value⟩ := is_iff.1 found
  have operand : token.endsOperand = false := by
    simp only [endsOperand, text?, kind, value]
    simpa using other
  have plain : token.plain = keyword characters := by
    rw [Token.plain, not_is_of_is found (by simp), if_neg (by decide), bare, kind, value]
    rfl
  rw [(isWord_of_kind (by simp [kind])).essential, plain, operand]

theorem essential_none (found : token.is .keyword "None" = true) :
    essential ended lists (token :: rest) = keyword "None" :: essential true lists rest := by
  obtain ⟨kind, value⟩ := is_iff.1 found
  have operand : token.endsOperand = true := by
    simp only [endsOperand, text?, kind, value]
    rfl
  rw [(isWord_of_kind (by simp [kind])).essential, plain_of_is found (by decide), operand]
  rfl

def IsAtom (token : Token) : Prop :=
  token.kind = .identifier ∨ token.kind = .boolean ∨ token.kind = .number ∨ token.kind = .text

theorem IsAtom.kind_ne (atom : token.IsAtom) : token.kind ≠ .punctuator := by
  intro kind
  rcases atom with same | same | same | same <;> cases kind.symm.trans same

theorem IsAtom.isWord (atom : token.IsAtom) : token.IsWord := isWord_of_kind atom.kind_ne

theorem IsAtom.plain_eq (atom : token.IsAtom) : token.plain = token.bare := by
  rw [plain, not_is_of_kind atom.kind_ne, if_neg (by decide)]

theorem essential_atom (atom : token.IsAtom) :
    essential ended lists (token :: rest) = token.bare :: essential true lists rest := by
  have operand : token.endsOperand = true := by
    unfold endsOperand
    rcases atom with kind | kind | kind | kind <;> rw [kind]
  rw [atom.isWord.essential, atom.plain_eq, operand]

theorem essential_layout (kind : token.kind = .newline ∨ token.kind = .indent ∨ token.kind = .dedent) :
    essential ended lists (token :: rest) = token.plain :: essential false lists rest := by
  have word : token.IsWord := by
    refine isWord_of_kind fun mark => ?_
    rcases kind with same | same | same <;> cases mark.symm.trans same
  have operand : token.endsOperand = false := by
    unfold endsOperand
    rcases kind with same | same | same <;> rw [same]
  rw [word.essential, operand]

end

/-! Nothing else is left out, and nothing is moved. -/

theorem essential_sublist (ended : Bool) (lists : List Bool) (tokens : List Token) :
    (essential ended lists tokens).Sublist (tokens.map plain) := by
  induction tokens generalizing ended lists with
  | nil => exact .slnil
  | cons token rest ih =>
    rw [essential, List.map_cons]
    split
    · split
      · exact (ih ..).cons _
      · exact (ih ..).cons_cons _
    split
    · split
      · exact (ih ..).cons _
      · exact (ih ..).cons_cons _
    split
    · exact (ih ..).cons _
    · exact (ih ..).cons_cons _

theorem isLoose_plain {token : Token} {characters : String}
    (found : token.is .punctuator characters = true) (known : characters ∈ ["(", ")", ","]) :
    token.plain.isLoose = true := by
  simp only [List.mem_cons, List.not_mem_nil, or_false] at known
  rcases known with rfl | rfl | rfl
  all_goals
    rw [plain_of_is found (by decide)]
    rfl

theorem essential_filter (ended : Bool) (lists : List Bool) (tokens : List Token) :
    (essential ended lists tokens).filter (fun token => !token.isLoose) =
      (tokens.map plain).filter (fun token => !token.isLoose) := by
  induction tokens generalizing ended lists with
  | nil => rfl
  | cons token rest ih =>
    -- as the scan goes: a token that it drops is loose, and any other one is on both sides
    rw [essential, List.map_cons, List.filter_cons]
    split
    · split
      · rename_i found
        rw [Bool.and_eq_true] at found
        simp only [isLoose_plain found.1 (by decide), Bool.not_true, Bool.false_eq_true, if_false, ih]
      · simp only [List.filter_cons, ih]
    split
    · split
      · rename_i found
        rw [Bool.and_eq_true] at found
        simp only [isLoose_plain found.1 (by decide), Bool.not_true, Bool.false_eq_true, if_false, ih]
      · simp only [List.filter_cons, ih]
    split
    · rename_i found
      rw [Bool.and_eq_true] at found
      simp only [isLoose_plain found.1 (by decide), Bool.not_true, Bool.false_eq_true, if_false, ih]
    · simp only [List.filter_cons, ih]

end TabScript.Token
