import TabScript.Proofs.Fillers.Passing

/-! Blank lines and comments leave no trace.

What stands in front of a filler is read as without it. What stands behind it is read as before, one line
further down if the filler is a line. -/

set_option autoImplicit false

namespace TabScript

def Position.below (place : Position) : Position := ⟨place.line + 1, place.column⟩

def Span.lowered (row : Nat) (span : Span) : Span :=
  if row ≤ span.start.line then ⟨span.start.below, span.stop.below⟩ else span

def Token.lowered (row : Nat) (token : Token) : Token := { token with span := token.span.lowered row }

def Fault.lowered (row : Nat) (fault : Fault) : Fault := { fault with span := fault.span.lowered row }

/-- What is read, with all places from a line on moved down. -/
def loweredFrom (row : Nat) : Except Fault (List Token) → Except Fault (List Token)
  | .ok tokens => .ok (tokens.map (Token.lowered row))
  | .error fault => .error (fault.lowered row)

namespace Position

def Lowered (row : Nat) (first second : Position) : Prop := row ≤ first.line ∧ second = first.below

def SameLine (first second : Position) : Prop := first.line = second.line

def Near (first second : Position) : Prop := second.line = first.line ∨ second.line = first.line + 1

theorem drift_lowered (row : Nat) : Drift (Lowered row) where
  after := by
    rintro first _ ⟨within, rfl⟩ character
    unfold after below
    split
    · exact ⟨Nat.le_succ_of_le within, rfl⟩
    · exact ⟨within, rfl⟩
  right := by
    rintro first _ ⟨within, rfl⟩
    exact ⟨within, rfl⟩

theorem drift_sameLine : Drift SameLine where
  after := by
    intro first second same character
    unfold after
    split
    · exact congrArg (· + 1) same
    · exact same
  right := id

theorem drift_near : Drift Near where
  after := by
    intro first second near character
    unfold after
    split
    · exact near.imp (congrArg (· + 1)) (congrArg (· + 1))
    · exact near
  right := id

theorem behind_lines {source : List Char} (lines : source = [] ∨ source.getLast? = some '\n') :
    behind source = ⟨(Source.lines source).length + 1, 0⟩ := by
  rcases lines with rfl | ends
  · rfl
  · obtain ⟨front, rfl⟩ := List.getLast?_eq_some_iff.1 ends
    rw [← Source.line_end ends, ← after_behind]
    rfl

end Position

theorem Token.alike_lowered (row : Nat) :
    Token.Alike (Position.Lowered row) fun first second => second = first.lowered row where
  drifts := by
    rintro ⟨kind, value, start, stop⟩ ⟨_, _, _, _⟩ ⟨same, same', starts, stops⟩
    dsimp only at same same' starts stops
    obtain ⟨within, rfl⟩ := starts
    obtain ⟨-, rfl⟩ := stops
    subst same same'
    simp only [lowered, Span.lowered, if_pos within]
  kind := by
    rintro first _ rfl
    rfl

theorem Token.alike_drifts (drift : Position → Position → Prop) :
    Token.Alike drift (Token.Drifts drift) where
  drifts := id
  kind := Token.Drifts.kind

theorem Span.PointsInto.lowered {source : List Char} {span : Span} (points : span.PointsInto source) :
    span.lowered ((Source.lines source).length + 1) = span := by
  rw [Span.lowered, if_neg (by have := points.within; omega)]

theorem Fault.lowered_of_drifts {row : Nat} {first second : Fault}
    (drifts : first.Drifts (Position.Lowered row) second) : second = first.lowered row := by
  obtain ⟨cause, start, stop⟩ := first
  obtain ⟨_, _, _⟩ := second
  obtain ⟨same, starts, stops⟩ := drifts
  dsimp only at same starts stops
  obtain ⟨within, rfl⟩ := starts
  obtain ⟨-, rfl⟩ := stops
  subst same
  simp only [lowered, Span.lowered, if_pos within]

theorem loweredFrom_of_agrees {row : Nat} {first second : Except Fault (List Token)}
    (agrees : Fault.Agrees (Position.Lowered row) (List.Forall₂ fun first second => second = first.lowered row)
      first second) : second = loweredFrom row first := by
  cases agrees with
  | ok tokens =>
    refine congrArg Except.ok ?_
    have same := List.forall₂_map_left_iff.2 (tokens.imp fun _ _ equal => Eq.symm equal)
    exact (List.forall₂_eq_eq_eq ▸ same :).symm
  | error fails => exact congrArg Except.error (Fault.lowered_of_drifts fails)

variable {before filler : List Char}

theorem tokenize_fillerLine (outside : endsInText before = false) (fills : Filler filler)
    (lines : before = [] ∨ before.getLast? = some '\n') (after : List Char) :
    tokenize (String.ofList (before ++ (filler ++ '\n' :: after))) =
      loweredFrom (Position.behind before).line (tokenize (String.ofList (before ++ after))) := by
  have place := Position.behind_lines lines
  have parted : ∀ more, before ≠ [] → Parted before more := fun more some_ =>
    .inl (lines.resolve_left some_)
  rcases Lexer.reads_before outside with ⟨fault, sited, failed⟩ | ⟨last, reaches, idle, same⟩
  · rw [failed _ (parted _), failed _ (parted _), place, loweredFrom, Fault.lowered, sited.points.lowered]
  · have placed := Lexer.placed_ofString before
    have start := reaches.start placed lines fun _ => rfl
    obtain ⟨passed, here⟩ := reaches.placed placed
    rw [same _ (parted _), same _ (parted _)]
    obtain ⟨⟨rest, position⟩, depths, emitted, flag⟩ := last
    -- nothing is left of the line before
    have split := here.stands.split
    obtain rfl : rest = [] := Filler.eq_nil idle (split ▸ lines)
    obtain rfl : flag = true := start rfl
    rw [List.append_nil] at split
    obtain rfl : position = .behind before := split ▸ here.stands.place
    have above : List.Forall₂ (fun first second => second = first.lowered (Position.behind before).line)
        emitted emitted := by
      refine List.forall₂_same.2 fun token inside => ?_
      rw [place, Token.lowered, (here.points token inside).lowered]
    refine (Lexer.tokens_fillerLine fills).trans (loweredFrom_of_agrees ?_)
    refine Lexer.Drifts.tokens (Position.drift_lowered _) (Token.alike_lowered _)
      ⟨⟨rfl, Nat.le_refl _, ?_⟩, rfl, above, rfl⟩
    rw [Lexer.extend, Scanner.extend, place]
    rfl

theorem tokenize_fillerBehind (outside : endsInText before = false) (fills : Filler filler) {after : List Char}
    (ends : ∀ character ∈ after.head?, character = '\n') :
    Fault.Agrees Position.SameLine (List.Forall₂ (Token.Drifts Position.SameLine))
      (tokenize (String.ofList (before ++ after))) (tokenize (String.ofList (before ++ (filler ++ after)))) := by
  have feed : ∀ next ∈ after.head?, Text.isBorder next = true := fun next head => by
    rw [ends next head]
    rfl
  have parted : Parted before after := .inr feed
  have parted' : Parted before (filler ++ after) := .inr (fills.border feed)
  rcases Lexer.reads_before outside with ⟨fault, sited, failed⟩ | ⟨last, reaches, idle, same⟩
  · rw [failed _ fun _ => parted, failed _ fun _ => parted']
    exact .error ⟨rfl, rfl, rfl⟩
  · rw [same _ fun _ => parted, same _ fun _ => parted']
    obtain ⟨⟨rest, position⟩, depths, emitted, flag⟩ := last
    simp only [Lexer.extend, Scanner.extend]
    rw [← List.append_assoc, Lexer.tokens_filler idle ends, Lexer.tokens_filler (idle.append fills) ends]
    refine Lexer.Drifts.tokens Position.drift_sameLine (Token.alike_drifts _)
      ⟨⟨rfl, ?_⟩, rfl, List.forall₂_same.2 fun _ _ => ⟨rfl, rfl, rfl, rfl⟩, rfl⟩
    exact (position.line_afterAll idle.inLine).trans (position.line_afterAll (idle.append fills).inLine).symm

theorem tokenize_fillerLast (outside : endsInText before = false) (fills : Filler filler) :
    Fault.Agrees Position.Near (List.Forall₂ (Token.Drifts Position.Near))
      (tokenize (String.ofList before)) (tokenize (String.ofList (before ++ '\n' :: filler))) := by
  have parted : Parted before ('\n' :: filler) := .inr (by rintro _ ⟨⟩; rfl)
  have parted' : Parted before [] := .inr (by rintro _ ⟨⟩)
  rw [← List.append_nil before]
  rcases Lexer.reads_before outside with ⟨fault, sited, failed⟩ | ⟨last, reaches, idle, same⟩
  · rw [failed _ fun _ => parted', List.append_nil, failed _ fun _ => parted]
    exact .error ⟨rfl, .inl rfl, .inl rfl⟩
  · rw [same _ fun _ => parted', List.append_nil, same _ fun _ => parted]
    obtain ⟨⟨rest, position⟩, depths, emitted, flag⟩ := last
    simp only [Lexer.extend, Scanner.extend]
    rw [Lexer.tokens_filler idle (by simp), Lexer.tokens_filler idle (by simp)]
    generalize position.afterAll rest = position
    have near (place : Position) (below : place.line = position.line + 1) (emitted : List Token) :
        Lexer.Drifts Position.Near (Token.Drifts Position.Near) ⟨⟨[], position⟩, depths, emitted, true⟩
          ⟨⟨[], place⟩, depths, emitted, true⟩ :=
      ⟨⟨rfl, .inr below⟩, rfl, List.forall₂_same.2 fun _ _ => ⟨rfl, rfl, .inl rfl, .inl rfl⟩, rfl⟩
    have below : ((⟨position.line + 1, 0⟩ : Position).afterAll filler).line = position.line + 1 :=
      Position.line_afterAll _ fills.inLine
    have alike := Token.alike_drifts Position.Near
    -- the text ends behind a line feed, or inside of a line that the new line feed ends
    cases flag with
    | true =>
      have nothing : Filler [] := .blank fun _ inside => absurd inside List.not_mem_nil
      have passes := @Lexer.tokens_fillerLine depths emitted [] (filler ++ []) position nothing
      rw [Lexer.tokens_filler fills (by simp), List.append_nil] at passes
      exact passes ▸ Lexer.Drifts.tokens Position.drift_near alike (near _ below emitted)
    | false =>
      rw [Lexer.tokens_last, Lexer.tokens_feed, Lexer.tokens_endLine_filler fills]
      refine Lexer.Drifts.tokens Position.drift_near alike ?_
      exact Lexer.Drifts.endLine alike (near _ below emitted) ⟨.inl rfl, .inl rfl⟩

/-- Unless it is put inside of a text, a filler leaves no trace. As a line of its own it moves what is behind
it one line down, at the end of a line it leaves every token on its line, and as a line more at the end of a
text it moves nothing further than to that line. -/
theorem tokenize_transparent (outside : endsInText before = false) (fills : Filler filler) :
    (∀ after, before = [] ∨ before.getLast? = some '\n' →
      tokenize (String.ofList (before ++ (filler ++ '\n' :: after))) =
        loweredFrom (Position.behind before).line (tokenize (String.ofList (before ++ after)))) ∧
    (∀ after, after = [] ∨ after.head? = some '\n' →
      Fault.Agrees Position.SameLine (List.Forall₂ (Token.Drifts Position.SameLine))
        (tokenize (String.ofList (before ++ after))) (tokenize (String.ofList (before ++ (filler ++ after))))) ∧
    Fault.Agrees Position.Near (List.Forall₂ (Token.Drifts Position.Near))
      (tokenize (String.ofList before)) (tokenize (String.ofList (before ++ '\n' :: filler))) := by
  refine ⟨fun after lines => tokenize_fillerLine outside fills lines after, fun after ends => ?_,
    tokenize_fillerLast outside fills⟩
  refine tokenize_fillerBehind outside fills fun character head => ?_
  rcases ends with rfl | feed
  · cases head
  · exact Option.some.inj (head.symm.trans feed)

/-- A comment between the head of a block and its body. -/
theorem tokenize_transparent_body :
    endsInText "if 'a':\n".toList = false ∧ Filler ("  ".toList ++ '#' :: " why".toList) ∧
      tokenize (String.ofList ("if 'a':\n".toList ++ ("  ".toList ++ '#' :: " why".toList ++ '\n' :: "\tb".toList))) =
        loweredFrom 2 (tokenize (String.ofList ("if 'a':\n".toList ++ "\tb".toList))) := by
  have outside : endsInText "if 'a':\n".toList = false := by decide +kernel
  have blanks : "  ".toList.all Text.isBlankInLine = true := by decide +kernel
  have fills : Filler ("  ".toList ++ '#' :: " why".toList) :=
    .comment (List.all_eq_true.1 blanks) (by decide +kernel)
  have line : (Position.behind "if 'a':\n".toList).line = 2 := by decide +kernel
  exact ⟨outside, fills, line ▸ (tokenize_transparent outside fills).1 _ (.inr (by decide +kernel))⟩

end TabScript
