import TabScript.Proofs.Pointing.Lines

/-! Carets stand under what they blame.

A line is shown with blanks in the place of its tabs, but the place of the carets is counted character by
character. Both agree up to the end of the line, so that the carets stand under the cells of the characters
that are to blame. Of a stretch over several lines all those are shown that exist. -/

set_option autoImplicit false

namespace TabScript.Diagnostic

/-! A single line. -/

section
variable {line : List Char} {start stop column : Nat}

@[simp] theorem expandTabs_append (first second : List Char) :
    expandTabs (first ++ second) = expandTabs first ++ expandTabs second :=
  List.flatMap_append

theorem length_expandTabs_cons (character : Char) (rest : List Char) :
    (expandTabs (character :: rest)).length = widthOf character + (expandTabs rest).length := by
  rw [expandTabs, List.flatMap_cons, List.length_append, widthOf]
  split
  · rw [List.length_replicate]
    rfl
  · rfl

theorem length_le_expandTabs (line : List Char) : line.length ≤ (expandTabs line).length := by
  induction line with
  | nil => exact Nat.le_refl 0
  | cons character rest ih =>
    have wide : 1 ≤ widthOf character := by
      unfold widthOf tabWidth
      split <;> omega
    rw [length_expandTabs_cons, List.length_cons]
    omega

theorem displayWidth_eq (within : column ≤ line.length) :
    displayWidth line column = (expandTabs (line.take column)).length := by
  induction column generalizing line with
  | zero =>
    rw [displayWidth]
    rfl
  | succ column ih =>
    cases line with
    | nil => cases within
    | cons character rest =>
      rw [displayWidth, ih (Nat.le_of_succ_le_succ within), List.take_succ_cons, length_expandTabs_cons]

/-- What stands in front of a place is what stands in front of another one, and what stands between both. -/
theorem take_split (forward : start ≤ stop) (line : List Char) :
    line.take stop = line.take start ++ (line.take stop).drop start := by
  have before : line.take start = (line.take stop).take start := by
    rw [List.take_take, Nat.min_eq_left forward]
  rw [before, List.take_append_drop]

/-- Blanks over the width of what stands in front, and a caret under every cell of what is to blame. -/
theorem underline_within (forward : start ≤ stop) (within : stop ≤ line.length) :
    underline line start stop = List.replicate (expandTabs (line.take start)).length ' ' ++
      List.replicate (max 1 (expandTabs ((line.take stop).drop start)).length) '^' := by
  have width : displayWidth line stop = (expandTabs (line.take start)).length +
      (expandTabs ((line.take stop).drop start)).length := by
    have widths := congrArg (fun shown => (expandTabs shown).length) (take_split forward line)
    simp only [expandTabs_append, List.length_append] at widths
    rw [displayWidth_eq within, widths]
  rw [underline, displayWidth_eq (Nat.le_trans forward within), width]
  congr 2
  omega

theorem drop_expandTabs (line : List Char) (start : Nat) :
    (expandTabs line).drop (expandTabs (line.take start)).length = expandTabs (line.drop start) := by
  calc (expandTabs line).drop (expandTabs (line.take start)).length
      = (expandTabs (line.take start) ++ expandTabs (line.drop start)).drop
          (expandTabs (line.take start)).length := by rw [← expandTabs_append, List.take_append_drop]
    _ = expandTabs (line.drop start) := List.drop_left

/-- A stretch of a line that is not empty ends no later than the line, as it is shown. -/
theorem carets_within (forward : start < stop) (within : stop ≤ line.length) :
    (expandTabs (line.take start)).length + max 1 (expandTabs ((line.take stop).drop start)).length ≤
      (expandTabs line).length := by
  have some_ : 1 ≤ (expandTabs ((line.take stop).drop start)).length := by
    refine Nat.le_trans ?_ (length_le_expandTabs _)
    rw [List.length_drop, List.length_take]
    omega
  have whole : line = line.take start ++ ((line.take stop).drop start ++ line.drop stop) := by
    rw [← List.append_assoc, ← take_split (Nat.le_of_lt forward), List.take_append_drop]
  have widths := congrArg (fun shown => (expandTabs shown).length) whole
  simp only [expandTabs_append, List.length_append] at widths
  omega

end

/-! Several lines. -/

section
variable {α : Type}

theorem map_filter_zipIdx (items : List α) (offset first last : Nat) :
    ((items.zipIdx offset).filter fun numbered => first ≤ numbered.2 && numbered.2 ≤ last).map Prod.fst =
      (items.take (last + 1 - offset)).drop (first - offset) := by
  induction items generalizing offset with
  | nil => simp
  | cons item items ih =>
    rw [List.zipIdx_cons, List.filter_cons]
    by_cases beyond : last < offset
    · -- no number is left in the range
      have none_ : last + 1 - offset = 0 := by omega
      have none' : last + 1 - (offset + 1) = 0 := by omega
      rw [if_neg (by simp; omega), ih, none_, none']
      simp
    · obtain ⟨count, more⟩ : ∃ count, last + 1 - offset = count + 1 := ⟨last - offset, by omega⟩
      have fewer : last + 1 - (offset + 1) = count := by omega
      rw [more, List.take_succ_cons]
      by_cases early : offset < first
      · obtain ⟨skipped, before⟩ : ∃ skipped, first - offset = skipped + 1 := ⟨first - offset - 1, by omega⟩
        have sooner : first - (offset + 1) = skipped := by omega
        rw [if_neg (by simp; omega), ih, fewer, before, sooner, List.drop_succ_cons]
      · have begun : first - offset = 0 := by omega
        have begun' : first - (offset + 1) = 0 := by omega
        rw [if_pos (by simp; omega), List.map_cons, ih, fewer, begun, begun']
        rfl

end

theorem filterMap_line? (lines : List (List Char)) (first count : Nat) :
    (List.range' first count).filterMap (Source.line? lines) =
      (lines.take (first + count - 1)).drop (first - 1) := by
  induction count generalizing first with
  | zero => simp
  | succ count ih =>
    rw [List.range'_succ, List.filterMap_cons, ih]
    cases first with
    | zero => simp [Source.line?]
    | succ before =>
      simp only [Source.line?, Nat.succ_ne_zero, if_false, Nat.add_sub_cancel]
      have size : before + 1 + 1 + count - 1 = before + 1 + (count + 1) - 1 := by omega
      rw [size]
      cases found : lines[before]? with
      | none =>
        have short := List.getElem?_eq_none_iff.1 found
        rw [List.drop_eq_nil_of_le, List.drop_eq_nil_of_le] <;> rw [List.length_take] <;> omega
      | some line =>
        obtain ⟨inside, rfl⟩ := List.getElem?_eq_some_iff.1 found
        have there : before < (lines.take (before + 1 + (count + 1) - 1)).length := by
          rw [List.length_take]
          omega
        rw [List.drop_eq_getElem_cons there, List.getElem_take]

theorem concerned_eq (lines : List (List Char)) (first last : Nat) :
    ((lines.zipIdx 1).filter fun numbered => first ≤ numbered.2 && numbered.2 ≤ last).map Prod.fst =
      (List.range' first (last + 1 - first)).filterMap (Source.line? lines) := by
  rw [map_filter_zipIdx, filterMap_line?, Nat.add_sub_cancel]
  by_cases forward : first ≤ last
  · rw [Nat.add_sub_cancel' (Nat.le_succ_of_le forward), Nat.succ_sub_one]
  · rw [List.drop_eq_nil_of_le, List.drop_eq_nil_of_le] <;> rw [List.length_take] <;> omega

/-- A stretch of one line, on a line that exists and within its characters, is shown with the line. Below it
stand as many blanks as the characters in front of the stretch have cells and then as many carets as those in
the stretch have, or one if there are none. So the first caret stands under the first cell from the stretch
on, and the carets do not go on behind the end of the line if the stretch is not empty. Of a stretch over
several lines those are shown that exist, each once and in order. -/
theorem render_underlined (diagnostic : Diagnostic) (source : String) :
    let lines := Source.lines source.toList
    let first := diagnostic.span.start
    let last := diagnostic.span.stop
    (∀ line, first.line = last.line → Source.line? lines first.line = some line →
      first.column ≤ last.column → last.column ≤ line.length →
      let before := expandTabs (line.take first.column)
      let carets := max 1 (expandTabs ((line.take last.column).drop first.column)).length
      (diagnostic.render source).toList = diagnostic.headline.toList ++ (expandTabs line ++ ['\n']) ++
        (List.replicate before.length ' ' ++ List.replicate carets '^' ++ ['\n']) ∧
      (expandTabs line).drop before.length = expandTabs (line.drop first.column) ∧
      (first.column < last.column → before.length + carets ≤ (expandTabs line).length)) ∧
    (first.line ≠ last.line →
      (diagnostic.render source).toList = diagnostic.headline.toList ++
        ((List.range' first.line (last.line + 1 - first.line)).filterMap (Source.line? lines)).flatMap
          fun line => ['>', '>', ' '] ++ expandTabs line ++ ['\n']) := by
  intro lines first last
  have rendered : (diagnostic.render source).toList = diagnostic.excerpt source.toList :=
    String.toList_ofList
  refine ⟨fun line alone found forward within => ⟨?_, ?_, ?_⟩, fun apart => ?_⟩
  · have drawn := underline_within forward within
    simp only [rendered, excerpt, headline, if_pos alone, found, drawn, lines, first, last]
    simp
  · exact drop_expandTabs line first.column
  · exact fun further => carets_within further within
  · rw [rendered, ← concerned_eq, List.flatMap_map]
    simp only [excerpt, headline, if_neg apart, lines, first, last]

/-- The stretch begins behind a tab and holds an accented letter and another tab. The line ends with a carriage
return and a line feed. -/
theorem render_underlined_accented :
    let diagnostic : Diagnostic := ⟨.typeViolation, "Expected a number", ⟨⟨2, 1⟩, ⟨2, 4⟩⟩⟩
    Source.line? (Source.lines "if True:\n\té\t= 1\r\n".toList) 2 = some "\té\t= 1".toList ∧
      (diagnostic.render "if True:\n\té\t= 1\r\n").toList = diagnostic.headline.toList ++
        ("    é    = 1".toList ++ ['\n']) ++ ("    ^^^^^^".toList ++ ['\n']) := by
  have found : Source.line? (Source.lines "if True:\n\té\t= 1\r\n".toList) 2 = some "\té\t= 1".toList := by
    decide
  have both := (render_underlined ⟨.typeViolation, "Expected a number", ⟨⟨2, 1⟩, ⟨2, 4⟩⟩⟩
    "if True:\n\té\t= 1\r\n").1 _ rfl found (by decide) (by decide)
  exact ⟨found, both.1⟩

end TabScript.Diagnostic
