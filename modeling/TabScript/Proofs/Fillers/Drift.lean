import Mathlib.Data.List.Forall2
import TabScript.Proofs.Layout.Logical

/-! The same characters read at other places.

What is read does not depend on where the characters stand. Two readers that are in front of the same
characters with the same blocks open find the same tokens, at places that correspond, or the same fault. -/

set_option autoImplicit false

namespace TabScript

structure Position.Drift (drift : Position → Position → Prop) : Prop where
  after {first second : Position} : drift first second → ∀ character,
    drift (first.after character) (second.after character)
  right {first second : Position} : drift first second → drift first.right second.right

variable {drift : Position → Position → Prop}

/-- Both ends of two stretches correspond. -/
def Span.Drifts (drift : Position → Position → Prop) (first second : Span) : Prop :=
  drift first.start second.start ∧ drift first.stop second.stop

structure Token.Drifts (drift : Position → Position → Prop) (first second : Token) : Prop where
  kind : second.kind = first.kind
  value : second.value = first.value
  span : first.span.Drifts drift second.span

structure Fault.Drifts (drift : Position → Position → Prop) (first second : Fault) : Prop where
  cause : second.cause = first.cause
  span : first.span.Drifts drift second.span

structure Scanner.Drifts (drift : Position → Position → Prop) (first second : Scanner) : Prop where
  rest : second.rest = first.rest
  position : drift first.position second.position

/-- Two readers give results that correspond, or fail with the same fault at places that do. -/
inductive Fault.Agrees (drift : Position → Position → Prop) {α β : Type} (good : α → β → Prop) :
    Except Fault α → Except Fault β → Prop where
  | ok {first : α} {second : β} (holds : good first second) : Agrees drift good (.ok first) (.ok second)
  | error {first second : Fault} (fails : first.Drifts drift second) :
    Agrees drift good (.error first) (.error second)

namespace Fault.Agrees

variable {α β γ δ : Type} {good : α → β → Prop} {fine : γ → δ → Prop}

theorem bind {first : Except Fault α} {second : Except Fault β} {next : α → Except Fault γ}
    {next' : β → Except Fault δ} (agrees : Agrees drift good first second)
    (others : ∀ value value', good value value' → Agrees drift fine (next value) (next' value')) :
    Agrees drift fine (first >>= next) (second >>= next') := by
  cases agrees with
  | ok holds => exact others _ _ holds
  | error fails => exact .error fails

theorem map {first : Except Fault α} {second : Except Fault β} {next : α → γ} {next' : β → δ}
    (agrees : Agrees drift good first second)
    (others : ∀ value value', good value value' → fine (next value) (next' value')) :
    Agrees drift fine (first.map next) (second.map next') := by
  cases agrees with
  | ok holds => exact .ok (others _ _ holds)
  | error fails => exact .error fails

end Fault.Agrees

namespace Position.Drift

variable (drifts : Drift drift)
include drifts

theorem afterAll {first second : Position} (places : drift first second) (characters : List Char) :
    drift (first.afterAll characters) (second.afterAll characters) := by
  induction characters generalizing first second with
  | nil => exact places
  | cons character characters ih => exact ih (drifts.after places character)

theorem single {first second : Position} (places : drift first second) :
    (Span.single first).Drifts drift (Span.single second) :=
  ⟨places, drifts.right places⟩

variable {first second : Scanner} (scanners : first.Drifts drift second)
include scanners

theorem skipWhile (test : Char → Bool) : (first.skipWhile test).Drifts drift (second.skipWhile test) := by
  obtain ⟨rest, position⟩ := first
  obtain ⟨_, position'⟩ := second
  obtain ⟨rfl, places⟩ := scanners
  exact ⟨rfl, drifts.afterAll places _⟩

theorem advance : first.advance.Drifts drift second.advance := by
  unfold Scanner.advance
  rw [scanners.rest]
  split
  · exact scanners
  · exact ⟨rfl, drifts.after scanners.position _⟩

end Position.Drift

namespace Scanner.Drifts

variable {first second : Scanner}

theorem run (scanners : first.Drifts drift second) (test : Char → Bool) : second.run test = first.run test := by
  rw [Scanner.run, scanners.rest, Scanner.run]

theorem peek (scanners : first.Drifts drift second) : second.peek = first.peek := by
  rw [Scanner.peek, scanners.rest, Scanner.peek]

theorem atEnd (scanners : first.Drifts drift second) : second.atEnd = first.atEnd := by
  rw [Scanner.atEnd, scanners.rest, Scanner.atEnd]

end Scanner.Drifts

namespace Token

def Beside (drift : Position → Position → Prop) (first second : Token × Scanner) : Prop :=
  first.1.Drifts drift second.1 ∧ first.2.Drifts drift second.2

variable (drifts : Position.Drift drift)
include drifts

theorem agrees_readTextBody {quote : Char} {start start' : Position} (starts : drift start start')
    {input read : List Char} {position position' : Position} (places : drift position position') :
    Fault.Agrees drift (fun first second => second.1 = first.1 ∧ first.2.Drifts drift second.2)
      (readTextBody quote start input position read) (readTextBody quote start' input position' read) := by
  fun_induction readTextBody quote start input position read generalizing position' with
  | case1 => exact .error ⟨rfl, starts, places⟩
  | case2 rest position =>
    rw [readTextBody.eq_def]
    exact .error ⟨rfl, starts, places⟩
  | case3 rest position read notLine =>
    rw [readTextBody.eq_def]
    simp only [notLine, if_false, if_true]
    exact .ok ⟨rfl, rfl, drifts.after places _⟩
  | case4 position read notLine notQuote =>
    rw [readTextBody.eq_def]
    simp only [notLine, notQuote, if_false, if_true]
    exact .error ⟨rfl, starts, drifts.after places '\\'⟩
  | case5 position read escaped behind notLine notQuote ih =>
    rw [readTextBody.eq_def quote start' ('\\' :: escaped :: behind)]
    simp only [notLine, notQuote, if_false, if_true]
    exact ih (drifts.after (drifts.after places _) _)
  | case6 character rest position read notLine notQuote notEscape control =>
    rw [readTextBody.eq_def]
    simp only [notLine, notQuote, notEscape, control, if_false, if_true]
    exact .error ⟨rfl, drifts.single places⟩
  | case7 character rest position read notLine notQuote notEscape visible ih =>
    rw [readTextBody.eq_def quote start' (character :: rest)]
    simp only [notLine, notQuote, notEscape, visible, if_false]
    exact ih (drifts.after places _)

variable {first second : Scanner} (scanners : first.Drifts drift second)
include scanners

theorem drifts_readFraction : (readFraction second).1 = (readFraction first).1 ∧
    (readFraction first).2.Drifts drift (readFraction second).2 := by
  have onward := drifts.advance scanners
  unfold readFraction
  rw [scanners.rest]
  split
  · split
    · exact ⟨onward.run _, drifts.skipWhile onward _⟩
    · exact ⟨rfl, scanners⟩
  · exact ⟨rfl, scanners⟩

theorem agrees_readNumber : Fault.Agrees drift (Beside drift) (readNumber first) (readNumber second) := by
  obtain ⟨same, behind⟩ := drifts_readFraction drifts (drifts.skipWhile scanners Char.isDigit)
  unfold readNumber
  simp only [behind.peek, scanners.run, same]
  split
  · exact .error ⟨rfl, drifts.single behind.position⟩
  · exact .ok ⟨⟨rfl, rfl, scanners.position, behind.position⟩, behind⟩

theorem agrees_readText (quote : Char) :
    Fault.Agrees drift (Beside drift) (readText quote first) (readText quote second) := by
  have opened := drifts.advance scanners
  unfold readText
  dsimp only
  rw [opened.rest]
  refine (agrees_readTextBody drifts scanners.position opened.position).bind fun value value' agrees => ?_
  obtain ⟨same, behind⟩ := agrees
  rw [same]
  exact .ok ⟨⟨rfl, rfl, scanners.position, behind.position⟩, behind⟩

omit drifts scanners in
theorem drifts_ofWord (word : String) {span span' : Span} (spans : span.Drifts drift span') :
    (ofWord word span).Drifts drift (ofWord word span') := by
  unfold ofWord
  split
  · exact ⟨rfl, rfl, spans⟩
  split
  · exact ⟨rfl, rfl, spans⟩
  split
  · exact ⟨rfl, rfl, spans⟩
  split
  · exact ⟨rfl, rfl, spans⟩
  · exact ⟨rfl, rfl, spans⟩

theorem beside_readWord : Beside drift (readWord first) (readWord second) := by
  have behind := drifts.skipWhile scanners Text.isWordPart
  unfold readWord
  rw [scanners.run]
  exact ⟨drifts_ofWord _ ⟨scanners.position, behind.position⟩, behind⟩

theorem beside_readOperator (character : Char) :
    Beside drift (readOperator character first) (readOperator character second) := by
  have one := drifts.advance scanners
  have two := drifts.advance one
  unfold readOperator
  dsimp only
  rw [one.rest]
  split
  · split
    · exact ⟨⟨rfl, rfl, scanners.position, two.position⟩, two⟩
    · exact ⟨⟨rfl, rfl, scanners.position, one.position⟩, one⟩
  · exact ⟨⟨rfl, rfl, scanners.position, one.position⟩, one⟩

theorem agrees_read (character : Char) :
    Fault.Agrees drift (Beside drift) (read character first) (read character second) := by
  have onward := drifts.advance scanners
  unfold read
  split
  · exact agrees_readText drifts scanners character
  split
  · exact agrees_readNumber drifts scanners
  split
  · exact .ok (beside_readWord drifts scanners)
  split
  · exact .ok ⟨⟨rfl, rfl, scanners.position, onward.position⟩, onward⟩
  split
  · exact .ok (beside_readOperator drifts scanners character)
  · exact .error ⟨rfl, drifts.single scanners.position⟩

end Token

/-- The readers are in front of the same characters with the same blocks open, and what they have read is
alike. -/
structure Lexer.Drifts (drift : Position → Position → Prop) (alike : Token → Token → Prop)
    (first second : Lexer) : Prop where
  scanner : first.scanner.Drifts drift second.scanner
  depths : second.depths = first.depths
  emitted : List.Forall₂ alike first.emitted second.emitted
  atLineStart : second.atLineStart = first.atLineStart

structure Token.Alike (drift : Position → Position → Prop) (alike : Token → Token → Prop) : Prop where
  drifts {first second : Token} : first.Drifts drift second → alike first second
  kind {first second : Token} : alike first second → second.kind = first.kind

namespace Lexer

variable {alike : Token → Token → Prop} (drifts : Position.Drift drift) (alikes : Token.Alike drift alike)
  {first second : Lexer} (lexers : first.Drifts drift alike second)

include alikes lexers

theorem Drifts.endLine {span span' : Span} (spans : span.Drifts drift span') :
    (first.endLine span).Drifts drift alike (second.endLine span') := by
  obtain ⟨scanner, depths, emitted, flag⟩ := first
  obtain ⟨scanner', depths', emitted', flag'⟩ := second
  obtain ⟨scanners, same, read, begun⟩ := lexers
  dsimp only at read
  unfold Lexer.endLine
  cases read with
  | nil => exact ⟨scanners, same, .nil, begun⟩
  | cons last others =>
    dsimp only
    rw [alikes.kind last]
    split
    · exact ⟨scanners, same, .cons last others, begun⟩
    · exact ⟨scanners, same, .cons (alikes.drifts ⟨rfl, rfl, spans⟩) (.cons last others), begun⟩

theorem Drifts.indentTo (depth : Nat) {span span' : Span} (spans : span.Drifts drift span') :
    Fault.Agrees drift (Lexer.Drifts drift alike) (first.indentTo depth span) (second.indentTo depth span') := by
  obtain ⟨scanner, depths, emitted, flag⟩ := first
  obtain ⟨scanner', depths', emitted', flag'⟩ := second
  obtain ⟨scanners, rfl, read, begun⟩ := lexers
  have none_ : emitted'.isEmpty = emitted.isEmpty := by cases read <;> rfl
  unfold Lexer.indentTo Lexer.depth
  simp only [none_]
  split
  · exact .error ⟨rfl, spans⟩
  split
  · exact .ok ⟨scanners, rfl, .cons (alikes.drifts ⟨rfl, rfl, spans⟩) read, begun⟩
  split
  · exact .error ⟨rfl, spans⟩
  split
  · refine .ok ⟨scanners, rfl, ?_, begun⟩
    refine List.rel_append ?_ read
    refine List.forall₂_map_left_iff.2 (List.forall₂_map_right_iff.2 ?_)
    exact List.forall₂_same.2 fun _ _ => alikes.drifts ⟨rfl, rfl, spans⟩
  · exact .error ⟨rfl, spans⟩

include drifts

theorem Drifts.startLine :
    Fault.Agrees drift (Lexer.Drifts drift alike) first.startLine second.startLine := by
  have indented := drifts.skipWhile lexers.scanner (· == '\t')
  have content := drifts.skipWhile indented Text.isBlankInLine
  have lineEnd := drifts.skipWhile content (· != '\n')
  unfold Lexer.startLine
  simp only [content.rest, lexers.scanner.run, indented.run, lineEnd.atEnd]
  split
  · exact .ok ⟨content, lexers.depths, lexers.emitted, rfl⟩
  · exact .ok ⟨drifts.advance content, lexers.depths, lexers.emitted, rfl⟩
  · exact .ok ⟨drifts.advance lineEnd, lexers.depths, lexers.emitted, rfl⟩
  · split
    · exact .error ⟨rfl, drifts.single indented.position⟩
    · have begun : Lexer.Drifts drift alike ⟨_, first.depths, first.emitted, false⟩
          ⟨_, second.depths, second.emitted, false⟩ := ⟨content, lexers.depths, lexers.emitted, rfl⟩
      have spans : (Span.mk first.scanner.position _).Drifts drift ⟨second.scanner.position, _⟩ :=
        ⟨lexers.scanner.position, content.position⟩
      exact Drifts.indentTo alikes begun _ spans

omit alikes in
theorem Drifts.skipBlanks : first.skipBlanks.Drifts drift alike second.skipBlanks :=
  ⟨drifts.skipWhile lexers.scanner _, lexers.depths, lexers.emitted, lexers.atLineStart⟩

theorem Drifts.continueLine :
    Fault.Agrees drift (Option.Rel (Lexer.Drifts drift alike)) first.continueLine second.continueLine := by
  have here := Drifts.skipBlanks drifts lexers
  unfold Lexer.continueLine
  simp only [here.scanner.rest]
  split
  · exact .ok .none
  · have ended := Drifts.endLine alikes here (drifts.single here.scanner.position)
    exact .ok (.some ⟨drifts.advance here.scanner, ended.depths, ended.emitted, rfl⟩)
  · exact .ok (.some ⟨drifts.skipWhile here.scanner _, here.depths, here.emitted, here.atLineStart⟩)
  · refine (Token.agrees_read drifts here.scanner _).bind fun found found' agrees => ?_
    obtain ⟨token, behind⟩ := agrees
    exact .ok (.some ⟨behind, here.depths, .cons (alikes.drifts token) here.emitted, here.atLineStart⟩)

theorem Drifts.advance :
    Fault.Agrees drift (Option.Rel (Lexer.Drifts drift alike)) first.advance second.advance := by
  unfold Lexer.advance
  rw [lexers.atLineStart]
  split
  · exact (Drifts.startLine drifts alikes lexers).map fun _ _ agrees => .some agrees
  · exact Drifts.continueLine drifts alikes lexers

theorem Drifts.finish : List.Forall₂ alike first.finish second.finish := by
  have here := Drifts.skipBlanks drifts lexers
  have stop := here.scanner.position
  have spans : (Span.point first.skipBlanks.scanner.position).Drifts drift
      (.point second.skipBlanks.scanner.position) := ⟨stop, stop⟩
  have ended := Drifts.endLine alikes here spans
  have point (kind : TokenKind) : alike (.structural kind first.skipBlanks.scanner.position)
      (.structural kind second.skipBlanks.scanner.position) := alikes.drifts ⟨rfl, rfl, stop, stop⟩
  unfold Lexer.finish
  dsimp only
  rw [ended.depths]
  refine List.rel_append (List.rel_append (List.rel_reverse ended.emitted) ?_) (.cons (point _) .nil)
  refine List.forall₂_map_left_iff.2 (List.forall₂_map_right_iff.2 ?_)
  exact List.forall₂_same.2 fun _ _ => point .dedent

theorem Drifts.tokens : Fault.Agrees drift (List.Forall₂ alike) first.tokens second.tokens := by
  fun_induction Lexer.tokens first generalizing second with
  | case1 first fault step =>
    have agrees := Drifts.advance drifts alikes lexers
    rw [step] at agrees
    cases step' : second.advance with
    | error fault' =>
      rw [step'] at agrees
      rw [tokens_of_error step']
      cases agrees with
      | error fails => exact .error fails
    | ok next =>
      rw [step'] at agrees
      cases agrees
  | case2 first step =>
    have agrees := Drifts.advance drifts alikes lexers
    rw [step] at agrees
    generalize step' : second.advance = result at agrees
    cases agrees with
    | ok holds =>
      cases holds
      rw [tokens_of_end step']
      exact .ok (Drifts.finish drifts alikes lexers)
  | case3 first next step ih =>
    have agrees := Drifts.advance drifts alikes lexers
    rw [step] at agrees
    generalize step' : second.advance = result at agrees
    cases agrees with
    | ok holds =>
      cases holds with
      | some further =>
        rw [tokens_of_advance step']
        exact ih further

end Lexer

end TabScript
