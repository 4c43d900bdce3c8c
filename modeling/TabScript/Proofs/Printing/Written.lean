import TabScript.Token.Stream

/-! Tokens without a place, how they are written, and that what is written is read again.

Behind every token that is written stands a blank or the end of a line, so that no token runs into the
next one. -/

set_option autoImplicit false

namespace TabScript

namespace Number

def Plain (number : Float) : Prop :=
  ∃ size, Magnitude.ofFloat number = .finite false size

def whole (number : Float) : List Char := (text number).toList.takeWhile Char.isDigit

def fraction (number : Float) : List Char := ((text number).toList.dropWhile Char.isDigit).drop 1

def ReadsBack (number : Float) : Prop := ofDigits (whole number) (fraction number) = number

def pointed (before behind : List Char) : List Char :=
  before ++ (if behind = [] then [] else '.' :: behind)

section
variable {before behind : List Char} (digits : ∀ digit ∈ before, digit.isDigit = true)
include digits

theorem takeWhile_pointed : (pointed before behind).takeWhile Char.isDigit = before := by
  rw [pointed, List.takeWhile_append_of_pos digits]
  by_cases empty : behind = []
  · simp [empty]
  · rw [if_neg empty, List.takeWhile_cons_of_neg (by decide), List.append_nil]

theorem dropWhile_pointed : ((pointed before behind).dropWhile Char.isDigit).drop 1 = behind := by
  rw [pointed, List.dropWhile_append_of_pos digits]
  by_cases empty : behind = []
  · simp [empty]
  · rw [if_neg empty, List.dropWhile_cons_of_neg (by decide), List.drop_one, List.tail_cons]

end

theorem isDigit_of_mem_digitsOf {number : Nat} : ∀ digit ∈ digitsOf number, digit.isDigit = true :=
  fun _ inside => Nat.isDigit_of_mem_toDigits (by decide) (by decide) inside

theorem positional_eq_pointed (decimal : Decimal) :
    ∃ before behind, positional decimal = pointed before behind ∧ before ≠ [] ∧
      (∀ digit ∈ before, digit.isDigit = true) ∧ ∀ digit ∈ behind, digit.isDigit = true := by
  have some_ : digitsOf decimal.digits ≠ [] := Nat.toDigits_ne_nil
  have zeros : ∀ count, ∀ digit ∈ List.replicate count '0', digit.isDigit = true := by
    intro count digit inside
    obtain ⟨-, rfl⟩ := List.mem_replicate.1 inside
    rfl
  unfold positional
  by_cases isWhole : 0 ≤ decimal.exponent
  · rw [if_pos isWhole]
    refine ⟨digitsOf decimal.digits ++ List.replicate decimal.exponent.toNat '0', [], ?_, ?_, ?_, ?_⟩
    · rw [pointed, if_pos rfl, List.append_nil]
      rfl
    · simp [some_]
    · intro digit inside
      exact (List.mem_append.1 inside).elim (isDigit_of_mem_digitsOf digit) (zeros _ digit)
    · simp
  · rw [if_neg isWhole]
    -- the point stands between digits, or zeros stand between it and them
    by_cases within : 0 < ((digitsOf decimal.digits).length : Int) + decimal.exponent
    · rw [if_pos within]
      generalize place : ((digitsOf decimal.digits).length : Int) + decimal.exponent = point at within
      refine ⟨(digitsOf decimal.digits).take point.toNat, (digitsOf decimal.digits).drop point.toNat,
        ?_, ?_, ?_, ?_⟩
      · have behind : (digitsOf decimal.digits).drop point.toNat ≠ [] := by
          rw [Ne, List.drop_eq_nil_iff]
          omega
        rw [pointed, if_neg behind]
      · rw [Ne, List.take_eq_nil_iff, not_or]
        exact ⟨by omega, some_⟩
      · exact fun digit inside => isDigit_of_mem_digitsOf digit (List.mem_of_mem_take inside)
      · exact fun digit inside => isDigit_of_mem_digitsOf digit (List.mem_of_mem_drop inside)
    · rw [if_neg within]
      generalize (-(((digitsOf decimal.digits).length : Int) + decimal.exponent)).toNat = count
      refine ⟨['0'], List.replicate count '0' ++ digitsOf decimal.digits, ?_, ?_, ?_, ?_⟩
      · rw [pointed, if_neg (by simp [some_])]
        rfl
      · exact List.cons_ne_nil _ _
      · simp
      · intro digit inside
        exact (List.mem_append.1 inside).elim (zeros _ digit) (isDigit_of_mem_digitsOf digit)

theorem Plain.text_eq {number : Float} (plain : Plain number) :
    (text number).toList = pointed (whole number) (fraction number) ∧ whole number ≠ [] ∧
      (∀ digit ∈ whole number, digit.isDigit = true) ∧
      ∀ digit ∈ fraction number, digit.isDigit = true := by
  obtain ⟨size, finite⟩ := plain
  have written : ∃ before behind, (text number).toList = pointed before behind ∧ before ≠ [] ∧
      (∀ digit ∈ before, digit.isDigit = true) ∧ ∀ digit ∈ behind, digit.isDigit = true := by
    simp only [text, finite, Bool.false_eq_true, if_false, List.nil_append, String.toList_ofList]
    by_cases zero : size.significand = 0
    · rw [if_pos zero]
      exact ⟨['0'], [], rfl, by simp, by simp, by simp⟩
    · rw [if_neg zero]
      exact positional_eq_pointed _
  obtain ⟨before, behind, same, some_, first, second⟩ := written
  have before_eq : whole number = before := by rw [whole, same, takeWhile_pointed first]
  have behind_eq : fraction number = behind := by rw [fraction, same, dropWhile_pointed first]
  rw [before_eq, behind_eq]
  exact ⟨same, some_, first, second⟩

end Number

namespace Text

/-- A character that a text can hold: those without a look of their own need a name. -/
def isWritable (character : Char) : Bool :=
  !isControl character || ['\x07', '\x08', '\x0c', '\n', '\r', '\t'].contains character

def escape : Char → List Char
  | '"' => ['\\', '"']
  | '\\' => ['\\', '\\']
  | '\x07' => ['\\', 'a']
  | '\x08' => ['\\', 'b']
  | '\x0c' => ['\\', 'f']
  | '\n' => ['\\', 'n']
  | '\r' => ['\\', 'r']
  | '\t' => ['\\', 't']
  | other => [other]

end Text

/-- A constant that can be written out: numbers have no sign, and texts no character without a name. -/
def Literal.Writable : Literal → Prop
  | .boolean _ => True
  | .number value => Number.Plain value
  | .text characters => ∀ character ∈ characters.toList, Text.isWritable character = true

namespace Token

def bare (token : Token) : Token := { token with span := default }

def mark (symbol : String) : Token := ⟨.punctuator, some (.text symbol), default⟩

def keyword (word : String) : Token := ⟨.keyword, some (.text word), default⟩

def name (name : String) : Token := ⟨.identifier, some (.text name), default⟩

def layout (kind : TokenKind) : Token := ⟨kind, none, default⟩

def constant (literal : Literal) : Token :=
  match literal with
  | .boolean _ => ⟨.boolean, some literal, default⟩
  | .number _ => ⟨.number, some literal, default⟩
  | .text _ => ⟨.text, some literal, default⟩

def written (token : Token) : List Char :=
  match token.value with
  | none => []
  | some (.boolean truth) => if truth then ['T', 'r', 'u', 'e'] else ['F', 'a', 'l', 's', 'e']
  | some (.number number) => (Number.text number).toList
  | some (.text characters) =>
    if token.kind = .text then '"' :: (characters.toList.flatMap Text.escape ++ ['"'])
    else characters.toList

structure IsName (word : String) : Prop where
  start : ∃ first others, word.toList = first :: others ∧ Text.isWordStart first = true ∧
    ∀ character ∈ others, Text.isWordPart character = true
  free : word ≠ "True" ∧ word ≠ "False"
  notOperator : word ∉ wordOperators
  notKeyword : word ∉ keywords

def signs : List String :=
  [",", ":", "(", ")", "[", "]", "=", "+", "-", "*", "/", "%", "**", "==", "!=", "<", "<=", ">", ">="]

inductive Writable : Token → Prop where
  | mark {symbol : String} (known : symbol ∈ signs ++ wordOperators) : Writable (.mark symbol)
  | keyword {word : String} (known : word ∈ keywords) : Writable (.keyword word)
  | name {word : String} (proper : IsName word) : Writable (.name word)
  | constant {literal : Literal} (proper : literal.Writable) : Writable (.constant literal)

namespace Writable

variable {token : Token} (writable : token.Writable)
include writable

theorem bare_eq : token.bare = token := by
  cases writable with
  | constant proper =>
    rename_i literal
    cases literal <;> rfl
  | _ => rfl

theorem kind_ne : token.kind ≠ .newline ∧ token.kind ≠ .dedent ∧ token.kind ≠ .endOfProgram := by
  cases writable with
  | constant proper =>
    rename_i literal
    cases literal <;> exact ⟨nofun, nofun, nofun⟩
  | _ => exact ⟨nofun, nofun, nofun⟩

end Writable

end Token

end TabScript
