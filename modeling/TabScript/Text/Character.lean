/-! Classes of characters that the language tells apart. -/

set_option autoImplicit false

namespace TabScript.Text

/-- White space as the Unicode property of that name, which also holds the line feed. -/
def isBlank (character : Char) : Bool :=
  let code := character.toNat
  (0x9 ≤ code && code ≤ 0xD) || code == 0x20 || code == 0x85 || code == 0xA0 || code == 0x1680
    || (0x2000 ≤ code && code ≤ 0x200A) || code == 0x2028 || code == 0x2029 || code == 0x202F
    || code == 0x205F || code == 0x3000

def isBlankInLine (character : Char) : Bool :=
  character != '\n' && isBlank character

def isControl (character : Char) : Bool :=
  let code := character.toNat
  code ≤ 0x1F || (0x7F ≤ code && code ≤ 0x9F)

def isWordStart (character : Char) : Bool :=
  character.isAlpha || character == '_'

def isWordPart (character : Char) : Bool :=
  character.isAlphanum || character == '_'

theorem isWordPart_of_isWordStart {character : Char} (start : isWordStart character = true) :
    isWordPart character = true := by
  simp only [isWordStart, isWordPart, Char.isAlphanum, Bool.or_eq_true] at start ⊢
  rcases start with alpha | underscore
  · exact .inl (.inl alpha)
  · exact .inr underscore

end TabScript.Text
