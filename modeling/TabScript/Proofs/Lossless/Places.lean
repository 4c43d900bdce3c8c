import TabScript.Proofs.Layout.Rows

/-! Places in a text, told by the characters in front of them.

A place is one more than the line feeds before it, and as far in as there are characters since the last one.
So places grow with every character, and the reading of a text always stands at the place of what is left. -/

set_option autoImplicit false

namespace TabScript

namespace Position

/-- The place behind these characters, if the text begins with them. -/
def behind (characters : List Char) : Position :=
  ⟨1 + characters.count '\n', (characters.reverse.takeWhile (· != '\n')).length⟩

/-- Strictly further on in the text. -/
def Before (first second : Position) : Prop :=
  first.line < second.line ∨ first.line = second.line ∧ first.column < second.column

variable {first second third : Position}

theorem Before.le (before : first.Before second) : first ≤ second := by
  rcases before with line | ⟨line, column⟩
  · exact .inl line
  · exact .inr ⟨line, Nat.le_of_lt column⟩

theorem le_refl (place : Position) : place ≤ place := .inr ⟨rfl, Nat.le_refl _⟩

theorem le_trans (start : first ≤ second) (further : second ≤ third) : first ≤ third := by
  rcases start with line | ⟨line, column⟩ <;> rcases further with line' | ⟨line', column'⟩
  · exact .inl (by omega)
  · exact .inl (by omega)
  · exact .inl (by omega)
  · exact .inr ⟨by omega, by omega⟩

theorem Before.trans_le (start : first.Before second) (further : second ≤ third) :
    first.Before third := by
  rcases start with line | ⟨line, column⟩ <;> rcases further with line' | ⟨line', column'⟩
  · exact .inl (by omega)
  · exact .inl (by omega)
  · exact .inl (by omega)
  · exact .inr ⟨by omega, by omega⟩

theorem after_behind (characters : List Char) (character : Char) :
    (behind characters).after character = behind (characters ++ [character]) := by
  unfold after behind
  rw [List.count_append, List.reverse_concat]
  split
  · rename_i feed
    subst feed
    simp [Nat.add_assoc]
  · rename_i inside
    simp [inside]

theorem afterAll_behind (characters more : List Char) :
    (behind characters).afterAll more = behind (characters ++ more) := by
  induction more generalizing characters with
  | nil => rw [List.append_nil]; rfl
  | cons character more ih =>
    rw [List.append_cons, ← ih, ← after_behind]
    rfl

theorem before_after (place : Position) (character : Char) : place.Before (place.after character) := by
  unfold after
  split
  · exact .inl (Nat.lt_succ_self _)
  · exact .inr ⟨rfl, Nat.lt_succ_self _⟩

theorem le_afterAll (place : Position) (characters : List Char) : place ≤ place.afterAll characters := by
  induction characters generalizing place with
  | nil => exact le_refl place
  | cons character characters ih => exact le_trans (before_after place character).le (ih _)

theorem behind_le (characters more : List Char) : behind characters ≤ behind (characters ++ more) := by
  rw [← afterAll_behind]
  exact le_afterAll _ more

theorem behind_before (characters : List Char) {more : List Char} (some_ : more ≠ []) :
    (behind characters).Before (behind (characters ++ more)) := by
  obtain ⟨character, more, rfl⟩ := List.exists_cons_of_ne_nil some_
  rw [← afterAll_behind]
  exact (before_after _ character).trans_le (le_afterAll _ more)

end Position

def Span.ofWord (before word : List Char) : Span :=
  ⟨.behind before, .behind (before ++ word)⟩

namespace Scanner

variable {source passed : List Char} {scanner : Scanner}

/-- So much of the text is passed, and the scanner knows the place of what is left. -/
structure Stands (source passed : List Char) (scanner : Scanner) : Prop where
  split : source = passed ++ scanner.rest
  place : scanner.position = .behind passed

theorem stands_ofString (source : String) : Stands source.toList [] (ofString source) :=
  ⟨rfl, rfl⟩

theorem Stands.onward (stands : Stands source passed scanner) {next : Scanner} {word : List Char}
    (split : scanner.rest = word ++ next.rest) (place : next.position = scanner.position.afterAll word) :
    Stands source (passed ++ word) next := by
  refine ⟨?_, ?_⟩
  · rw [stands.split, split, List.append_assoc]
  · rw [place, stands.place, Position.afterAll_behind]

theorem Stands.skipWhile (stands : Stands source passed scanner) (test : Char → Bool) :
    Stands source (passed ++ scanner.run test) (scanner.skipWhile test) :=
  stands.onward List.takeWhile_append_dropWhile.symm rfl

theorem Stands.advance (stands : Stands source passed scanner) {character : Char} {rest : List Char}
    (shape : scanner.rest = character :: rest) :
    Stands source (passed ++ [character]) scanner.advance := by
  obtain ⟨_, position⟩ := scanner
  obtain rfl := shape
  exact stands.onward rfl rfl

end Scanner

end TabScript
