import TabScript.Text.Hidden

/-! Spellings of characters inside messages and quoted texts. -/

set_option autoImplicit false

namespace TabScript.Text

def codePoint (character : Char) : List Char :=
  ['\\', 'u', '\x7b'] ++ Nat.toDigits 16 character.toNat ++ ['\x7d']

namespace Quoted

/-- How one character is written between double quotes. The single quote stands for itself there. -/
def spell (character : Char) : List Char :=
  match character with
  | '"' => ['\\', '"']
  | '\\' => ['\\', '\\']
  | '\n' => ['\\', 'n']
  | '\r' => ['\\', 'r']
  | '\t' => ['\\', 't']
  | '\x00' => ['\\', '0']
  | other => if isHidden other then codePoint other else [other]

end Quoted

def quoted (text : String) : String :=
  String.ofList ('"' :: (text.toList.flatMap Quoted.spell ++ ['"']))

/-- How a message names a character that does not belong in a program: only printable ASCII
characters stand for themselves, and quotes and the backslash are escaped. -/
def named (character : Char) : String :=
  String.ofList <|
    match character with
    | '\t' => ['\\', 't']
    | '\r' => ['\\', 'r']
    | '\n' => ['\\', 'n']
    | '\'' => ['\\', '\'']
    | '"' => ['\\', '"']
    | '\\' => ['\\', '\\']
    | other =>
      if 0x20 ≤ other.toNat ∧ other.toNat ≤ 0x7E then [other] else codePoint other

end TabScript.Text
