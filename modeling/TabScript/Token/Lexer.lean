import TabScript.Diagnostic.Cause
import TabScript.Number.Reading
import TabScript.Source.Scanner
import TabScript.Text.Character

/-! From characters to tokens.

Each reader takes the cursor at the first character of a token and gives the token with the cursor
behind it. Line by line, the tabs in front of the content are turned into tokens that open and close
blocks. Every step leaves less work, so the whole text is always read to its end or to the first
fault. -/

set_option autoImplicit false

namespace TabScript

namespace Token

def keywords : List String :=
  ["as", "assert", "break", "class", "continue", "def", "del", "elif", "else", "except", "exec",
    "finally", "for", "from", "global", "if", "import", "in", "lambda", "None", "pass", "raise",
    "return", "try", "while", "with", "yield"]

def wordOperators : List String := ["and", "or", "not", "is"]

/-- Operators of two characters. Where one of them fits, it is preferred to its first character. -/
def compounds : List (Char × Char) :=
  [('=', '='), ('!', '='), ('<', '='), ('>', '='), ('*', '*')]

def isPunctuation (character : Char) : Bool :=
  [',', ':', '(', ')', '[', ']', '\x7b', '\x7d'].contains character

def isOperatorStart (character : Char) : Bool :=
  ['=', '<', '>', '+', '-', '*', '/', '&', '|', '%', '^', '~', '!'].contains character

def ofWord (word : String) (span : Span) : Token :=
  if word = "True" then ⟨.boolean, some (.boolean true), span⟩
  else if word = "False" then ⟨.boolean, some (.boolean false), span⟩
  else if wordOperators.contains word then ⟨.punctuator, some (.text word), span⟩
  else if keywords.contains word then ⟨.keyword, some (.text word), span⟩
  else ⟨.identifier, some (.text word), span⟩

def readWord (scanner : Scanner) : Token × Scanner :=
  let behind := scanner.skipWhile Text.isWordPart
  (ofWord (String.ofList (scanner.run Text.isWordPart)) ⟨scanner.position, behind.position⟩, behind)

/-- The digits behind a point. Without any, the point does not belong to the number. -/
def readFraction (scanner : Scanner) : List Char × Scanner :=
  match scanner.rest with
  | '.' :: digit :: _ =>
    if digit.isDigit then
      (scanner.advance.run Char.isDigit, scanner.advance.skipWhile Char.isDigit)
    else
      ([], scanner)
  | _ => ([], scanner)

def readNumber (scanner : Scanner) : Except Fault (Token × Scanner) :=
  let whole := scanner.run Char.isDigit
  let (fraction, behind) := readFraction (scanner.skipWhile Char.isDigit)
  if behind.peek.any Text.isWordStart then
    .error ⟨.digitExpected, .single behind.position⟩
  else
    let value := Number.ofDigits whole fraction
    .ok (⟨.number, some (.number value), ⟨scanner.position, behind.position⟩⟩, behind)

/-- What a character stands for behind a backslash. A line feed stands for nothing, and a character
without a meaning of its own keeps the backslash. -/
def unescape : Char → List Char
  | '\n' => []
  | '\\' => ['\\']
  | '\'' => ['\'']
  | '"' => ['"']
  | 'a' => ['\x07']
  | 'b' => ['\x08']
  | 'f' => ['\x0c']
  | 'n' => ['\n']
  | 'r' => ['\r']
  | 't' => ['\t']
  | other => ['\\', other]

/-- Reads a text up to its closing quote. `start` is the place of the opening quote, and `read`
holds the characters of the text so far, the last one first. -/
def readTextBody (quote : Char) (start : Position) :
    List Char → Position → List Char → Except Fault (String × Scanner)
  | [], position, _ => .error ⟨.endInsideText, ⟨start, position⟩⟩
  | character :: rest, position, read =>
    if character = '\n' then
      .error ⟨.unterminatedText, ⟨start, position⟩⟩
    else if character = quote then
      .ok (String.ofList read.reverse, ⟨rest, position.after character⟩)
    else if character = '\\' then
      match rest with
      | [] => .error ⟨.endInsideText, ⟨start, position.after character⟩⟩
      | escaped :: behind =>
        readTextBody quote start behind ((position.after character).after escaped)
          ((unescape escaped).reverse ++ read)
    else if Text.isControl character && character != '\t' then
      .error ⟨.controlInText, .single position⟩
    else
      readTextBody quote start rest (position.after character) (character :: read)

def readText (quote : Char) (scanner : Scanner) : Except Fault (Token × Scanner) := do
  let opened := scanner.advance
  let (characters, behind) ← readTextBody quote scanner.position opened.rest opened.position []
  return (⟨.text, some (.text characters), ⟨scanner.position, behind.position⟩⟩, behind)

def readOperator (first : Char) (scanner : Scanner) : Token × Scanner :=
  let single := scanner.advance
  let (characters, behind) :=
    match single.rest with
    | second :: _ =>
      if compounds.contains (first, second) then ([first, second], single.advance)
      else ([first], single)
    | [] => ([first], single)
  (⟨.punctuator, some (.text (String.ofList characters)), ⟨scanner.position, behind.position⟩⟩,
    behind)

def read (first : Char) (scanner : Scanner) : Except Fault (Token × Scanner) :=
  if first = '"' ∨ first = '\'' then
    readText first scanner
  else if first.isDigit then
    readNumber scanner
  else if Text.isWordStart first then
    .ok (readWord scanner)
  else if isPunctuation first then
    let behind := scanner.advance
    .ok (⟨.punctuator, some (.text first.toString), ⟨scanner.position, behind.position⟩⟩, behind)
  else if isOperatorStart first then
    .ok (readOperator first scanner)
  else
    .error ⟨.unexpectedCharacter first, .single scanner.position⟩

end Token

/-- The state of reading a program text. `depths` are the indentations of the open blocks, the
innermost first, and `emitted` the tokens so far, the last one first. -/
structure Lexer where
  scanner : Scanner
  depths : List Nat
  emitted : List Token
  atLineStart : Bool

namespace Lexer

def ofString (source : String) : Lexer := ⟨.ofString source, [], [], true⟩

def depth (lexer : Lexer) : Nat := lexer.depths.headD 0

/-- A bound on the steps to come. The start of a line is a step of its own. -/
def work (lexer : Lexer) : Nat :=
  2 * lexer.scanner.rest.length + if lexer.atLineStart then 1 else 0

/-- Ends the line, unless nothing was on it: there are no empty lines between tokens. -/
def endLine (lexer : Lexer) (span : Span) : Lexer :=
  match lexer.emitted with
  | [] => lexer
  | last :: _ =>
    if last.kind = .newline then lexer
    else { lexer with emitted := ⟨.newline, none, span⟩ :: lexer.emitted }

/-- Opens or closes blocks so that the innermost one has the given indentation. -/
def indentTo (lexer : Lexer) (depth : Nat) (span : Span) : Except Fault Lexer :=
  if lexer.emitted.isEmpty ∧ 0 < depth then
    .error ⟨.indentedFirstLine, span⟩
  else if depth = lexer.depth + 1 then
    .ok { lexer with
      depths := depth :: lexer.depths
      emitted := ⟨.indent, none, span⟩ :: lexer.emitted }
  else if lexer.depth < depth then
    .error ⟨.tooMuchIndentation, span⟩
  else
    let closed := lexer.depths.takeWhile (depth < ·)
    let remaining := lexer.depths.dropWhile (depth < ·)
    if remaining.headD 0 = depth then
      .ok { lexer with
        depths := remaining
        emitted := closed.map (fun _ => ⟨.dedent, none, span⟩) ++ lexer.emitted }
    else
      .error ⟨.unmatchedIndentation, span⟩

/-- Reads what stands before the content of a line. Lines without content are passed over whole, and
their indentation means nothing. -/
def startLine (lexer : Lexer) : Except Fault Lexer :=
  let start := lexer.scanner
  let tabs := start.run (· == '\t')
  let indented := start.skipWhile (· == '\t')
  let content := indented.skipWhile Text.isBlankInLine
  match content.rest with
  | [] => .ok { lexer with scanner := content, atLineStart := false }
  | '\n' :: _ => .ok { lexer with scanner := content.advance, atLineStart := true }
  | '#' :: _ =>
    let lineEnd := content.skipWhile (· != '\n')
    .ok { lexer with scanner := lineEnd.advance, atLineStart := !lineEnd.atEnd }
  | _ :: _ =>
    if indented.run Text.isBlankInLine ≠ [] then
      .error ⟨.strayIndentation, .single indented.position⟩
    else
      indentTo { lexer with scanner := content, atLineStart := false } tabs.length
        ⟨start.position, content.position⟩

def skipBlanks (lexer : Lexer) : Lexer :=
  { lexer with scanner := lexer.scanner.skipWhile Text.isBlankInLine }

def continueLine (lexer : Lexer) : Except Fault (Option Lexer) :=
  let here := lexer.skipBlanks
  match here.scanner.rest with
  | [] => .ok none
  | '\n' :: _ =>
    let ended := here.endLine (.single here.scanner.position)
    .ok (some { ended with scanner := here.scanner.advance, atLineStart := true })
  | '#' :: _ => .ok (some { here with scanner := here.scanner.skipWhile (· != '\n') })
  | first :: _ => do
    let (token, behind) ← Token.read first here.scanner
    return some { here with scanner := behind, emitted := token :: here.emitted }

def advance (lexer : Lexer) : Except Fault (Option Lexer) :=
  if lexer.atLineStart then lexer.startLine.map some else lexer.continueLine

def finish (lexer : Lexer) : List Token :=
  let here := lexer.skipBlanks
  let stop := here.scanner.position
  let ended := here.endLine (.point stop)
  let dedents := ended.depths.map fun _ => Token.structural .dedent stop
  ended.emitted.reverse ++ dedents ++ [.structural .endOfProgram stop]

end Lexer

end TabScript
