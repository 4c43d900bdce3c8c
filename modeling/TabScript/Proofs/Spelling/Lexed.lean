import TabScript.Proofs.Failable
import TabScript.Proofs.Layout.Structure
import TabScript.Proofs.Spelling.Essential

/-! What is known of the tokens of a program text.

The kind of a token and its value fit together, keywords are told apart from punctuators by their text, and
the end of a line stands behind the last token of every line, and nowhere else. -/

set_option autoImplicit false

namespace TabScript

namespace Token

def Lexed (token : Token) : Prop :=
  match token.kind, token.value with
  | .punctuator, some (.text characters) => characters ∉ keywords ∧ characters ≠ atom
  | .keyword, some (.text word) => word ∈ keywords
  | .identifier, some (.text _) | .text, some (.text _) => True
  | .boolean, some (.boolean _) | .number, some (.number _) => True
  | .newline, none | .indent, none | .dedent, none | .endOfProgram, none => True
  | _, _ => False

theorem lexed_layout (kind : TokenKind) (span : Span) (layout : kind.isContent = false) :
    Lexed ⟨kind, none, span⟩ := by
  cases kind with
  | newline | indent | dedent | endOfProgram => trivial
  | _ => cases layout

theorem lexed_ofWord (word : String) (span : Span) : (ofWord word span).Lexed := by
  have operators : ∀ operator ∈ wordOperators, operator ∉ keywords ∧ operator ≠ atom := by decide
  unfold ofWord
  split
  · trivial
  split
  · trivial
  split
  · rename_i known
    exact operators word (List.contains_iff_mem.1 known)
  split
  · rename_i known
    exact List.contains_iff_mem.1 known
  · trivial

theorem lexed_punctuation {first : Char} (known : isPunctuation first = true) (span : Span) :
    Lexed ⟨.punctuator, some (.text first.toString), span⟩ := by
  have all : ∀ characters ∈ [',', ':', '(', ')', '[', ']', '\x7b', '\x7d'].map Char.toString,
      characters ∉ keywords ∧ characters ≠ atom := by decide
  exact all _ (List.mem_map_of_mem (List.contains_iff_mem.1 known))

theorem lexed_readOperator {first : Char} (known : isOperatorStart first = true) (scanner : Scanner) :
    (readOperator first scanner).1.Lexed := by
  have single : ∀ characters ∈ ['=', '<', '>', '+', '-', '*', '/', '&', '|', '%', '^', '~', '!'].map
      fun character => String.ofList [character], characters ∉ keywords ∧ characters ≠ atom := by decide
  have double : ∀ characters ∈ compounds.map fun pair => String.ofList [pair.1, pair.2],
      characters ∉ keywords ∧ characters ≠ atom := by decide
  unfold readOperator
  dsimp only
  split
  · split
    · rename_i second _ _ compound
      have member : (first, second) ∈ compounds := List.contains_iff_mem.1 compound
      exact double _ (List.mem_map_of_mem member)
    · exact single _ (List.mem_map_of_mem (List.contains_iff_mem.1 known))
  · exact single _ (List.mem_map_of_mem (List.contains_iff_mem.1 known))

theorem lexed_read {first : Char} {scanner behind : Scanner} {token : Token}
    (read : Token.read first scanner = .ok (token, behind)) : token.Lexed := by
  unfold Token.read at read
  split at read
  · obtain ⟨⟨characters, last⟩, -, made⟩ := except_bind_ok read
    cases made
    trivial
  split at read
  · unfold readNumber at read
    dsimp only at read
    split at read
    · cases read
    · cases read
      trivial
  split at read
  · cases read
    exact lexed_ofWord _ _
  split at read
  · rename_i known
    cases read
    exact lexed_punctuation known _
  split at read
  · rename_i known
    cases read
    exact lexed_readOperator known scanner
  · cases read

end Token

namespace Lexer

variable {lexer next : Lexer}

def Lexed (lexer : Lexer) : Prop := ∀ token ∈ lexer.emitted, token.Lexed

theorem Lexed.endLine (lexed : lexer.Lexed) (span : Span) : (lexer.endLine span).Lexed := by
  unfold Lexer.endLine
  split
  · exact lexed
  · split
    · exact lexed
    · exact List.forall_mem_cons.2 ⟨Token.lexed_layout _ _ rfl, lexed⟩

theorem Lexed.indentTo (lexed : lexer.Lexed) {depth : Nat} {span : Span}
    (done : lexer.indentTo depth span = .ok next) : next.Lexed := by
  unfold Lexer.indentTo at done
  split at done
  · cases done
  split at done
  · cases done
    exact List.forall_mem_cons.2 ⟨Token.lexed_layout _ _ rfl, lexed⟩
  split at done
  · cases done
  dsimp only at done
  split at done
  · cases done
    intro token inside
    rcases List.mem_append.1 inside with closing | further
    · obtain ⟨-, -, rfl⟩ := List.mem_map.1 closing
      exact Token.lexed_layout _ _ rfl
    · exact lexed token further
  · cases done

theorem Lexed.startLine (lexed : lexer.Lexed) (done : lexer.startLine = .ok next) : next.Lexed := by
  unfold Lexer.startLine at done
  dsimp only at done
  split at done
  · cases done
    exact lexed
  · cases done
    exact lexed
  · cases done
    exact lexed
  · split at done
    · cases done
    · refine Lexed.indentTo ?_ done
      exact lexed

theorem Lexed.continueLine (lexed : lexer.Lexed) (done : lexer.continueLine = .ok (some next)) :
    next.Lexed := by
  unfold Lexer.continueLine at done
  dsimp only at done
  split at done
  · cases done
  · cases done
    have here : lexer.skipBlanks.Lexed := lexed
    exact here.endLine _
  · cases done
    exact lexed
  · obtain ⟨⟨token, behind⟩, read, made⟩ := except_bind_ok done
    cases made
    exact List.forall_mem_cons.2 ⟨Token.lexed_read read, lexed⟩

theorem Lexed.advance (lexed : lexer.Lexed) (done : lexer.advance = .ok (some next)) : next.Lexed := by
  unfold Lexer.advance at done
  split at done
  · cases started : lexer.startLine with
    | error fault =>
      rw [started] at done
      cases done
    | ok other =>
      rw [started] at done
      cases done
      exact lexed.startLine started
  · exact lexed.continueLine done

theorem Lexed.finish (lexed : lexer.Lexed) : ∀ token ∈ lexer.finish, token.Lexed := by
  intro token inside
  simp only [Lexer.finish, List.mem_append, List.mem_reverse, List.mem_singleton] at inside
  have here : lexer.skipBlanks.Lexed := lexed
  rcases inside with (written | closing) | rfl
  · exact here.endLine _ token written
  · obtain ⟨-, -, rfl⟩ := List.mem_map.1 closing
    exact Token.lexed_layout _ _ rfl
  · exact Token.lexed_layout _ _ rfl

theorem Lexed.tokens (lexed : lexer.Lexed) {tokens : List Token} (read : lexer.tokens = .ok tokens) :
    ∀ token ∈ tokens, token.Lexed := by
  fun_induction Lexer.tokens lexer with
  | case1 lexer fault => cases read
  | case2 lexer =>
    cases read
    exact lexed.finish
  | case3 lexer next step ih => exact ih (lexed.advance step) read

end Lexer

theorem lexed_tokenize {source : String} {tokens : List Token} (read : tokenize source = .ok tokens) :
    ∀ token ∈ tokens, token.Lexed :=
  Lexer.Lexed.tokens (fun _ inside => by cases inside) read

/-- The end of a line stands behind a token with content that no other one follows, and nowhere else.
`inside` tells whether a token with content stands in front. -/
def Token.Lined (inside : Bool) : List Token → Prop
  | [] => True
  | token :: rest =>
    (if inside then token.kind = .newline ∨ token.kind.isContent = true else token.kind ≠ .newline) ∧
      Lined token.kind.isContent rest

namespace Token

theorem lined_closing {closing tokens : List Token}
    (layout : ∀ token ∈ closing, token.kind = .indent ∨ token.kind = .dedent)
    (lined : Lined false tokens) : Lined false (closing ++ tokens) := by
  induction closing with
  | nil => exact lined
  | cons token closing ih =>
    have rest := ih fun other inside => layout other (List.mem_cons_of_mem _ inside)
    rcases layout token List.mem_cons_self with kind | kind
    all_goals
      refine ⟨by simp [kind], ?_⟩
      rw [kind]
      exact rest

theorem lined_content {content tokens : List Token}
    (written : ∀ token ∈ content, token.kind.isContent = true) {ending : Token}
    (ends : ending.kind = .newline) (lined : Lined false tokens) {inside : Bool}
    (something : inside = false → content ≠ []) : Lined inside (content ++ ending :: tokens) := by
  induction content generalizing inside with
  | nil =>
    cases inside with
    | false => exact absurd rfl (something rfl)
    | true =>
      refine ⟨.inl ends, ?_⟩
      rw [ends]
      exact lined
  | cons token content ih =>
    have kind := written token List.mem_cons_self
    -- only the first token may stand at the start of the line; behind it all stand inside
    refine ⟨?_, ?_⟩
    · split
      · exact .inr kind
      · intro newline
        rw [newline] at kind
        cases kind
    · rw [kind]
      exact ih (fun other member => written other (List.mem_cons_of_mem _ member)) (by simp)

end Token

theorem TokenKind.ne_of_isContent {kind : TokenKind} (content : kind.isContent = true) :
    kind ≠ .endOfProgram := by
  rintro rfl
  cases content

def Token.Ended (tokens : List Token) : Prop :=
  ∃ front last, tokens = front ++ [last] ∧ last.kind = .endOfProgram ∧
    ∀ token ∈ front, token.kind ≠ .endOfProgram

theorem Token.Ended.behind {tokens front : List Token} (ended : Ended tokens)
    (inside : ∀ token ∈ front, token.kind ≠ .endOfProgram) : Ended (front ++ tokens) := by
  obtain ⟨before, last, rfl, kind, others⟩ := ended
  refine ⟨front ++ before, last, (List.append_assoc ..).symm, kind, fun token member => ?_⟩
  exact (List.mem_append.1 member).elim (inside token) (others token)

theorem Token.ended_row {opening content tokens : List Token} {ending : Token}
    (layout : ∀ token ∈ opening, token.kind = .indent ∨ token.kind = .dedent)
    (written : ∀ token ∈ content, token.kind.isContent = true) (ends : ending.kind = .newline)
    (ended : Ended tokens) : Ended (opening ++ content ++ ending :: tokens) := by
  have line : ∀ token ∈ opening ++ content ++ [ending], token.kind ≠ .endOfProgram := by
    rw [List.forall_mem_append, List.forall_mem_append, List.forall_mem_singleton]
    refine ⟨⟨fun token inside => ?_, fun token inside => ?_⟩, by simp [ends]⟩
    · rcases layout token inside with kind | kind <;> simp [kind]
    · exact TokenKind.ne_of_isContent (written token inside)
  rw [List.append_cons]
  exact ended.behind line

theorem Row.layout_opening {above : Option Row} {row : Row} {opening : List Token}
    (opens : opening.map Token.kind = row.opening above) :
    ∀ token ∈ opening, token.kind = .indent ∨ token.kind = .dedent := by
  intro token inside
  rcases row.opens_opening opens with opened | closes
  · obtain ⟨indent, rfl, kind⟩ := List.map_eq_singleton_iff.1 opened
    obtain rfl := List.mem_singleton.1 inside
    exact .inl kind
  · exact .inr (closes token inside)

theorem Row.Comes.lined {above : Option Row} {rows : List Row} {broken : Option Fault}
    {result : Except Fault (List Token)} (comes : Row.Comes above rows broken result)
    {tokens : List Token} (read : result = .ok tokens) :
    Token.Lined false tokens ∧ Token.Ended tokens := by
  induction comes generalizing tokens with
  | done above stop =>
    cases read
    have closing : ∀ token ∈ List.replicate (Row.depth above) (Token.structural .dedent stop),
        token.kind = .dedent := fun token inside => by rw [(List.mem_replicate.1 inside).2]; rfl
    constructor
    · apply Token.lined_closing fun token inside => .inr (closing token inside)
      exact ⟨by simp [Token.structural], trivial⟩
    · refine ⟨_, _, rfl, rfl, fun token inside => ?_⟩
      rw [closing token inside]
      simp
  | misplaced => cases read
  | broken => cases read
  | @row above row fits something content opening opens ending ends rows broken result others ih =>
    cases result with
    | error other => cases read
    | ok behind =>
      cases read
      obtain ⟨lined, ended⟩ := ih rfl
      have layout := Row.layout_opening opens
      constructor
      · change Token.Lined false (opening ++ row.content ++ ending :: behind)
        rw [List.append_assoc]
        exact Token.lined_closing layout (Token.lined_content content ends lined fun _ => something)
      · exact Token.ended_row layout content ends ended

/-- The tokens of a text are lines of tokens with content, and behind them stands the end of the
program. -/
theorem lined_tokenize {source : String} {tokens : List Token} (read : tokenize source = .ok tokens) :
    Token.Lined false tokens ∧ Token.Ended tokens := by
  have begun : (none : Option Row) = none ↔ ([] : List Token) = [] := by simp
  obtain ⟨result, comes, same⟩ := Lexer.comes_rows (Scanner.ofString source) begun (by simp)
  refine comes.lined ?_
  change tokenize source = _ at same
  rw [read] at same
  cases result with
  | error fault => cases same
  | ok others =>
    cases same
    rfl

end TabScript
