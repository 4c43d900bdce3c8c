import TabScript.Json.Basic
import TabScript.Number.Text

/-! JSON files with one item or field on each line, two spaces deeper than what encloses it. -/

set_option autoImplicit false

namespace TabScript.Json

def escape (character : Char) : List Char :=
  match character with
  | '"' => ['\\', '"']
  | '\\' => ['\\', '\\']
  | '\x08' => ['\\', 'b']
  | '\x0c' => ['\\', 'f']
  | '\n' => ['\\', 'n']
  | '\r' => ['\\', 'r']
  | '\t' => ['\\', 't']
  | other =>
    if other.toNat < 0x20 then
      ['\\', 'u', '0', '0'] ++ Nat.toDigits 16 (other.toNat / 16)
        ++ Nat.toDigits 16 (other.toNat % 16)
    else
      [other]

def quote (text : String) : String :=
  String.ofList ('"' :: (text.toList.flatMap escape ++ ['"']))

def lineBreak (depth : Nat) : String :=
  "\n" ++ String.ofList (List.replicate (2 * depth) ' ')

mutual

/-- A value as it stands in an indented file. Empty arrays and objects take no line of their own. -/
def pretty (depth : Nat) : Json → String
  | null => "null"
  | boolean truth => if truth then "true" else "false"
  | integer number => toString number
  | float number => Number.jsonText number
  | text characters => quote characters
  | array [] => "[]"
  | array (item :: items) =>
    "[" ++ lineBreak (depth + 1) ++ pretty (depth + 1) item ++ prettyItems (depth + 1) items
      ++ lineBreak depth ++ "]"
  | object [] => "\x7b\x7d"
  | object ((name, value) :: fields) =>
    "\x7b" ++ lineBreak (depth + 1) ++ quote name ++ ": " ++ pretty (depth + 1) value
      ++ prettyFields (depth + 1) fields ++ lineBreak depth ++ "\x7d"

def prettyItems (depth : Nat) : List Json → String
  | [] => ""
  | item :: items => "," ++ lineBreak depth ++ pretty depth item ++ prettyItems depth items

def prettyFields (depth : Nat) : List (String × Json) → String
  | [] => ""
  | (name, value) :: fields =>
    "," ++ lineBreak depth ++ quote name ++ ": " ++ pretty depth value
      ++ prettyFields depth fields

end

end TabScript.Json
