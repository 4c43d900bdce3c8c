import TabScript.Proofs.Printing.Layout

/-! The lines of a program text, read without any regard to indentation.

A row is a line that is neither blank nor holds only a comment: the white space in front, and the tokens
behind it. A text that is continued behind an escaped end of line stays on its row. -/

set_option autoImplicit false

namespace TabScript

theorem Position.afterAll_append (position : Position) (first second : List Char) :
    position.afterAll (first ++ second) = (position.afterAll first).afterAll second :=
  List.foldl_append

namespace Scanner

variable {scanner : Scanner} {test : Char → Bool}

theorem skipWhile_eq_self (fails : ∀ character ∈ scanner.rest.head?, test character = false) :
    scanner.skipWhile test = scanner := by
  obtain ⟨rest, position⟩ := scanner
  cases rest with
  | nil => rfl
  | cons character rest =>
    have stop : ¬test character = true := by simp [fails character rfl]
    simp only [skipWhile, run, List.takeWhile_cons_of_neg stop, List.dropWhile_cons_of_neg stop]
    rfl

theorem head?_skipWhile (scanner : Scanner) (test : Char → Bool) :
    ∀ character ∈ (scanner.skipWhile test).rest.head?, test character = false := by
  intro character head
  have fails := List.head?_dropWhile_not test scanner.rest
  rw [show scanner.rest.dropWhile test = (scanner.skipWhile test).rest from rfl, head] at fails
  simpa using fails

theorem of_mem_run (test : Char → Bool) {character : Char} (inside : character ∈ scanner.run test) :
    test character = true :=
  List.all_eq_true.1 List.all_takeWhile character inside

variable {narrow : Char → Bool}

theorem run_append (within : ∀ character, narrow character = true → test character = true)
    (scanner : Scanner) :
    scanner.run test = scanner.run narrow ++ (scanner.skipWhile narrow).run test := by
  have passes : ∀ character ∈ scanner.run narrow, test character = true :=
    fun character inside => within character (of_mem_run narrow inside)
  have split : (scanner.run narrow ++ scanner.rest.dropWhile narrow).takeWhile test = _ :=
    List.takeWhile_append_of_pos passes
  rw [run, List.takeWhile_append_dropWhile] at split
  exact split

theorem skipWhile_skipWhile (within : ∀ character, narrow character = true → test character = true)
    (scanner : Scanner) :
    (scanner.skipWhile narrow).skipWhile test = scanner.skipWhile test := by
  have passes : ∀ character ∈ scanner.run narrow, test character = true :=
    fun character inside => within character (of_mem_run narrow inside)
  have split : (scanner.run narrow ++ scanner.rest.dropWhile narrow).dropWhile test = _ :=
    List.dropWhile_append_of_pos passes
  rw [run, List.takeWhile_append_dropWhile] at split
  have run := run_append within scanner
  simp only [skipWhile, run, split, Position.afterAll_append]

def line (scanner : Scanner) : Except Fault (List Token × Scanner) :=
  let here := scanner.skipWhile Text.isBlankInLine
  match _shape : here.rest with
  | [] => .ok ([], here)
  | '\n' :: _ => .ok ([], here.advance)
  | '#' :: _ => .ok ([], (here.skipWhile (· != '\n')).advance)
  | first :: _ =>
    match _found : Token.read first here with
    | .error fault => .error fault
    | .ok (token, behind) => (line behind).map fun (tokens, next) => (token :: tokens, next)
termination_by scanner.rest.length
decreasing_by
  exact Nat.lt_of_lt_of_le (Token.length_rest_read_lt _shape _found)
    (length_rest_skipWhile_le scanner Text.isBlankInLine)

theorem length_rest_line_le {next : Scanner} {tokens : List Token}
    (read : scanner.line = .ok (tokens, next)) :
    next.rest.length ≤ scanner.rest.length - 1 := by
  fun_induction line scanner generalizing tokens with
  | case1 scanner here =>
    rename_i shape
    obtain ⟨-, rfl⟩ := Prod.mk.inj (Except.ok.inj read)
    simp [shape]
  | case2 scanner here =>
    rename_i rest shape
    obtain ⟨-, rfl⟩ := Prod.mk.inj (Except.ok.inj read)
    have blanks : here.rest.length ≤ scanner.rest.length := length_rest_skipWhile_le _ _
    have passed := length_rest_advance_lt shape
    omega
  | case3 scanner here =>
    rename_i rest shape
    obtain ⟨-, rfl⟩ := Prod.mk.inj (Except.ok.inj read)
    have comment := length_rest_skipWhile_lt here (· != '\n') shape (by decide)
    have blanks : here.rest.length ≤ scanner.rest.length := length_rest_skipWhile_le _ _
    have passed := length_rest_advance_le (here.skipWhile (· != '\n'))
    omega
  | case4 => cases read
  | case5 scanner here first rest newline comment shape token behind =>
    rename_i found ih
    have shorter := Token.length_rest_read_lt shape found
    have blanks : here.rest.length ≤ scanner.rest.length := length_rest_skipWhile_le _ _
    cases others : behind.line with
    | error fault =>
      rw [others] at read
      cases read
    | ok result =>
      rw [others] at read
      cases read
      have := ih others
      omega

theorem length_rest_line_lt {next : Scanner} {tokens : List Token} (more : scanner.rest ≠ [])
    (read : scanner.line = .ok (tokens, next)) : next.rest.length < scanner.rest.length := by
  have shorter := length_rest_line_le read
  have some_ := List.length_pos_iff.2 more
  omega

end Scanner

/-- A line with something on it: the white space in front of it and the tokens on it. -/
structure Row where
  margin : List Char
  content : List Token

namespace Row

def tabs (row : Row) : Nat := (row.margin.takeWhile (· == '\t')).length

end Row

/-- The rows from here on. Lines with nothing on them are left out, and the first fault inside a row ends
the reading; the row is still there, as its margin can be seen. -/
def Scanner.rows (scanner : Scanner) : List Row × Option Fault :=
  if _more : scanner.rest = [] then
    ([], none)
  else
    match _read : scanner.line with
    | .error fault => ([⟨scanner.run Text.isBlankInLine, []⟩], some fault)
    | .ok ([], next) => next.rows
    | .ok (token :: tokens, next) =>
      (⟨scanner.run Text.isBlankInLine, token :: tokens⟩ :: next.rows.1, next.rows.2)
termination_by scanner.rest.length
decreasing_by all_goals exact Scanner.length_rest_line_lt _more _read

end TabScript
