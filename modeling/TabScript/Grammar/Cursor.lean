import TabScript.Diagnostic.Cause

/-! A cursor over tokens, and the readers of single tokens. -/

set_option autoImplicit false

namespace TabScript

/-- The token read last, the tokens up to the end of the program, and the token that marks the
end, which is never passed. -/
structure Cursor where
  previous : Option Token
  upcoming : List Token
  ending : Token

abbrev Parser := StateT Cursor (Except Fault)

namespace Cursor

def ofTokens (tokens : List Token) : Cursor :=
  let stop := (tokens.getLast?.map (·.span.stop)).getD default
  ⟨none, tokens.takeWhile (·.kind ≠ .endOfProgram),
    (tokens.find? (·.kind = .endOfProgram)).getD (.structural .endOfProgram stop)⟩

def peek (cursor : Cursor) : Token := cursor.upcoming.headD cursor.ending

/-- Moves behind the next token; the end of the program stays ahead for ever. -/
def advance (cursor : Cursor) : Cursor :=
  match cursor.upcoming with
  | [] => cursor
  | token :: rest => { cursor with previous := some token, upcoming := rest }

def skipNewlines (cursor : Cursor) : Cursor :=
  let newlines := cursor.upcoming.takeWhile (·.kind = .newline)
  { cursor with
    previous := newlines.getLast?.or cursor.previous
    upcoming := cursor.upcoming.dropWhile (·.kind = .newline) }

def unexpected (cursor : Cursor) (expected : Option Expectation) : Fault :=
  let token := cursor.peek
  if token.kind = .endOfProgram then
    ⟨.unexpectedEnd expected, (cursor.previous.map (·.span)).getD token.span⟩
  else
    ⟨.unexpectedToken token expected cursor.previous, token.span⟩

end Cursor

namespace Parser

def peek : Parser Token := fun cursor => .ok (cursor.peek, cursor)

def next : Parser Token := fun cursor => .ok (cursor.peek, cursor.advance)

def skipNewlines : Parser Unit := fun cursor => .ok ((), cursor.skipNewlines)

def fail {α : Type} (fault : Fault) : Parser α := fun _ => .error fault

def unexpected {α : Type} (expected : Option Expectation) : Parser α :=
  fun cursor => .error (cursor.unexpected expected)

def atPunctuator (text : String) : Parser Bool :=
  fun cursor => .ok (cursor.peek.is .punctuator text, cursor)

def atKeyword (text : String) : Parser Bool :=
  fun cursor => .ok (cursor.peek.is .keyword text, cursor)

def punctuator? (text : String) : Parser (Option Token) := do
  if ← atPunctuator text then return some (← next) else return none

def punctuator (text : String) : Parser Token := do
  match ← punctuator? text with
  | some token => return token
  | none => unexpected (some (.punctuator text))

def token (kind : TokenKind) : Parser Token := do
  if (← peek).kind = kind then next else unexpected (some (.token kind))

def exhausted {α : Type} : Parser α := fun cursor => .error ⟨.endlessRule, cursor.peek.span⟩

end Parser

end TabScript
