import TabScript.Diagnostic.Cause
import TabScript.Diagnostic.Excerpt
import TabScript.Proofs.Lossless.Places

/-! Stretches that begin on a line of the text, and how they are shown.

A text has a line for every line feed, and one more where something stands behind the last of them. So every
character stands on a line, but the end of the text does only if it is not the beginning of a new line. -/

set_option autoImplicit false

namespace TabScript

namespace Source

theorem length_lines_cons (character : Char) (rest : List Char) :
    (lines (character :: rest)).length =
      if character = '\n' then (lines rest).length + 1 else max 1 (lines rest).length := by
  by_cases feed : character = '\n'
  · subst feed
    rw [lines, if_pos rfl, List.length_cons]
  rw [if_neg feed]
  by_cases pair : ∃ others, character = '\r' ∧ rest = '\n' :: others
  · -- the two characters end one line together
    obtain ⟨others, rfl, rfl⟩ := pair
    rw [lines, lines, List.length_cons]
    omega
  · rw [lines]
    · cases lines rest with
      | nil => rfl
      | cons line others =>
        simp only [List.length_cons]
        omega
    · exact feed
    · exact fun others first same => pair ⟨others, first, same⟩

theorem length_lines (source : List Char) :
    (lines source).length =
      source.count '\n' + if source.getLast?.all (· == '\n') then 0 else 1 := by
  induction source with
  | nil => rfl
  | cons character rest ih =>
    rw [length_lines_cons, List.count_cons, ih]
    cases rest with
    | nil => by_cases feed : character = '\n' <;> simp [feed]
    | cons second others =>
      have some_ : 1 ≤ (lines (second :: others)).length := by
        rw [length_lines_cons]
        split <;> omega
      rw [ih] at some_
      rw [List.getLast?_cons_cons]
      by_cases feed : character = '\n'
      · simp only [feed, if_true, beq_self_eq_true]
        omega
      · simp only [feed, if_false, beq_iff_eq]
        omega

theorem line_behind_le {source before rest : List Char} (split : source = before ++ rest)
    (some_ : rest ≠ []) : (Position.behind before).line ≤ (lines source).length := by
  have ends : source.getLast? = some (rest.getLast some_) := by
    rw [split, List.getLast?_append, List.getLast?_eq_some_getLast some_, Option.some_or]
  rw [length_lines, ends, split, List.count_append]
  simp only [Position.behind]
  split
  · rename_i feed
    -- the last character is a line feed that stands at or behind this place
    have last : rest.getLast some_ = '\n' := by simpa using feed
    have inside : '\n' ∈ rest := last ▸ List.getLast_mem some_
    have counted := List.count_pos_iff.2 inside
    omega
  · omega

/-- The end of a text stands on a line if something else than a line feed is last in it. -/
theorem line_end_le {source : List Char} {last : Char} (ends : source.getLast? = some last)
    (inLine : last ≠ '\n') : (Position.behind source).line ≤ (lines source).length := by
  rw [length_lines, if_neg (by simpa [ends] using inLine), Nat.add_comm]
  exact Nat.le_refl _

theorem line_end {source : List Char} (ends : source.getLast? = some '\n') :
    (Position.behind source).line = (lines source).length + 1 := by
  rw [length_lines, if_pos (by simp [ends]), Nat.add_zero, Nat.add_comm]
  rfl

end Source

namespace Position

variable {first second third fourth : Position}

theorem le_of_not_le (further : ¬first ≤ second) : second ≤ first := by
  by_cases line : second.line < first.line
  · exact .inl line
  · by_cases same : second.line = first.line
    · refine .inr ⟨same, Nat.le_of_not_le fun column => further (.inr ⟨same.symm, column⟩)⟩
    · exact absurd (.inl (by omega)) further

theorem line_le (start : first ≤ second) : first.line ≤ second.line := by
  rcases start with line | ⟨line, -⟩ <;> omega

theorem min_le_left (first second : Position) : min first second ≤ first := by
  change (if first ≤ second then first else second) ≤ first
  split
  · exact le_refl first
  · rename_i further
    exact le_of_not_le further

theorem le_max_left (first second : Position) : first ≤ max first second := by
  change first ≤ if first ≤ second then second else first
  split
  · assumption
  · exact le_refl first

end Position

structure Span.Runs (span : Span) : Prop where
  forward : span.start ≤ span.stop
  counted : 1 ≤ span.start.line

structure Span.PointsInto (source : List Char) (span : Span) : Prop extends span.Runs where
  within : span.start.line ≤ (Source.lines source).length

namespace Span

variable {source : List Char} {first second span : Span}

theorem Runs.union (forth : first.Runs) (other : second.Runs) : (first.union second).Runs := by
  refine ⟨?_, ?_⟩
  · exact Position.le_trans (Position.le_trans (Position.min_le_left _ _) forth.forward)
      (Position.le_max_left _ _)
  · change 1 ≤ (if first.start ≤ second.start then first.start else second.start).line
    split
    · exact forth.counted
    · exact other.counted

/-- What covers a stretch in the text begins there, wherever the other one is. -/
theorem PointsInto.union (points : first.PointsInto source) (other : second.Runs) :
    (first.union second).PointsInto source :=
  ⟨points.toRuns.union other, Nat.le_trans (Position.line_le (Position.min_le_left _ _)) points.within⟩

theorem PointsInto.unions (points : first.PointsInto source) {others : List Span}
    (all : ∀ other ∈ others, other.Runs) : (others.foldl Span.union first).PointsInto source := by
  induction others generalizing first with
  | nil => exact points
  | cons second others ih =>
    have joined := points.union (all second List.mem_cons_self)
    exact ih joined fun other inside => all other (List.mem_cons_of_mem _ inside)

theorem runs_point {characters : List Char} : (point (.behind characters)).Runs :=
  ⟨Position.le_refl _, Nat.le_add_right _ _⟩

theorem pointsInto_from {before rest : List Char} (split : source = before ++ rest) (some_ : rest ≠ [])
    {stop : Position} (further : .behind before ≤ stop) : PointsInto source ⟨.behind before, stop⟩ :=
  ⟨⟨further, Nat.le_add_right _ _⟩, Source.line_behind_le split some_⟩

theorem pointsInto_single {before rest : List Char} (split : source = before ++ rest)
    (some_ : rest ≠ []) : (single (.behind before)).PointsInto source :=
  pointsInto_from split some_ (.inr ⟨rfl, Nat.le_succ _⟩)

theorem pointsInto_point {before : List Char}
    (within : (Position.behind before).line ≤ (Source.lines source).length) :
    (point (.behind before)).PointsInto source :=
  ⟨runs_point, within⟩

theorem PointsInto.line? (points : span.PointsInto source) :
    ∃ line, Source.line? (Source.lines source) span.start.line = some line := by
  have counted := points.counted
  have within : span.start.line - 1 < (Source.lines source).length := by
    have := points.within
    omega
  refine ⟨(Source.lines source)[span.start.line - 1], ?_⟩
  rw [Source.line?, if_neg (by omega), List.getElem?_eq_getElem within]

end Span

namespace Diagnostic

def headline (diagnostic : Diagnostic) : String :=
  let first := diagnostic.span.start.line
  let last := diagnostic.span.stop.line
  if first = last then s!"Error on line {first}: {diagnostic.message}\n"
  else s!"Error on lines {first} through {last}: {diagnostic.message}\n"

/-- What is shown of the text: the line where the stretch begins, with a mark under that place, or all lines
that are concerned, and that one among them. -/
inductive Marked (diagnostic : Diagnostic) (source : String) : Prop where
  | underlined {line : List Char}
    (found : Source.line? (Source.lines source.toList) diagnostic.span.start.line = some line)
    {carets : Nat} (some_ : 0 < carets)
    (shown : diagnostic.excerpt source.toList = diagnostic.headline.toList ++
      (expandTabs line ++ '\n' ::
        (List.replicate (displayWidth line diagnostic.span.start.column) ' ' ++
          List.replicate carets '^') ++ ['\n'])) : Marked diagnostic source
  | quoted {line : List Char}
    (found : Source.line? (Source.lines source.toList) diagnostic.span.start.line = some line)
    {before after : List Char}
    (shown : diagnostic.excerpt source.toList = diagnostic.headline.toList ++
      (before ++ (['>', '>', ' '] ++ expandTabs line ++ ['\n']) ++ after)) : Marked diagnostic source

variable {diagnostic : Diagnostic} {source : String}

theorem headline_eq (diagnostic : Diagnostic) :
    ∃ details, diagnostic.headline = "Error on line" ++ details := by
  unfold headline
  dsimp only
  split
  · refine ⟨" " ++ toString diagnostic.span.start.line ++ ": " ++ diagnostic.message ++ "\n", ?_⟩
    simp only [← String.append_assoc]
    rfl
  · refine ⟨"s " ++ toString diagnostic.span.start.line ++ " through " ++
      toString diagnostic.span.stop.line ++ ": " ++ diagnostic.message ++ "\n", ?_⟩
    simp only [← String.append_assoc]
    rfl

theorem headline_headed (diagnostic : Diagnostic) :
    "Error on line".toList <+: diagnostic.headline.toList := by
  obtain ⟨details, same⟩ := diagnostic.headline_eq
  rw [same, String.toList_append]
  exact List.prefix_append _ _

theorem Marked.headed (marked : diagnostic.Marked source) :
    "Error on line".toList <+: (diagnostic.render source).toList := by
  have rendered : (diagnostic.render source).toList = diagnostic.excerpt source.toList :=
    String.toList_ofList
  rw [rendered]
  cases marked with
  | underlined _ _ shown | quoted _ shown =>
    rw [shown]
    exact diagnostic.headline_headed.trans (List.prefix_append _ _)

theorem underline_eq (line : List Char) (start stop : Nat) :
    ∃ carets, 0 < carets ∧ underline line start stop =
      List.replicate (displayWidth line start) ' ' ++ List.replicate carets '^' :=
  ⟨max (displayWidth line stop) (displayWidth line start + 1) - displayWidth line start, by omega, rfl⟩

theorem marked_of_pointsInto (points : diagnostic.span.PointsInto source.toList) :
    diagnostic.Marked source := by
  obtain ⟨line, found⟩ := points.line?
  by_cases alone : diagnostic.span.start.line = diagnostic.span.stop.line
  · obtain ⟨carets, some_, drawn⟩ :=
      underline_eq line diagnostic.span.start.column diagnostic.span.stop.column
    refine .underlined found some_ ?_
    simp only [excerpt, headline, if_pos alone, found, drawn]
  · -- the first of the lines is among those concerned
    have first : (Source.lines source.toList)[diagnostic.span.start.line - 1]? = some line := by
      rwa [Source.line?, if_neg (Nat.ne_of_gt points.counted)] at found
    have within : (line, diagnostic.span.start.line) ∈
        ((Source.lines source.toList).zipIdx 1).filter fun numbered =>
          diagnostic.span.start.line ≤ numbered.2 && numbered.2 ≤ diagnostic.span.stop.line := by
      have forward := Position.line_le points.forward
      refine List.mem_filter.2 ⟨List.mem_zipIdx_iff_le_and_getElem?_sub.2 ⟨points.counted, first⟩, ?_⟩
      simpa using forward
    obtain ⟨before, after, split⟩ := List.append_of_mem within
    let mark : List Char × Nat → List Char := fun numbered =>
      ['>', '>', ' '] ++ expandTabs numbered.1 ++ ['\n']
    refine @Marked.quoted _ _ _ found (before.flatMap mark) (after.flatMap mark) ?_
    simp only [excerpt, headline, if_neg alone, split, List.flatMap_append, List.flatMap_cons,
      List.append_assoc, mark]

end Diagnostic

/-- The fault begins on a line of the text, ends no earlier, and is shown with the line. -/
structure Fault.Located (source : String) (fault : Fault) : Prop where
  forward : fault.span.start ≤ fault.span.stop
  begins : (Source.line? (Source.lines source.toList) fault.span.start.line).isSome
  headed : "Error on line".toList <+: (fault.diagnostic.render source).toList
  marked : fault.diagnostic.Marked source

theorem Span.PointsInto.located {source : String} {fault : Fault}
    (points : fault.span.PointsInto source.toList) : fault.Located source := by
  obtain ⟨line, found⟩ := points.line?
  have marked : fault.diagnostic.Marked source := Diagnostic.marked_of_pointsInto points
  exact ⟨points.forward, by rw [found]; rfl, marked.headed, marked⟩

end TabScript
