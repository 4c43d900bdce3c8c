import TabScript.Diagnostic.Basic
import TabScript.Source.Lines

/-! The lines that a problem concerns, with the guilty part of a single line underlined. -/

set_option autoImplicit false

namespace TabScript.Diagnostic

def tabWidth : Nat := 4

def widthOf (character : Char) : Nat := if character = '\t' then tabWidth else 1

def expandTabs (line : List Char) : List Char :=
  line.flatMap fun character =>
    if character = '\t' then List.replicate tabWidth ' ' else [character]

/-- How many columns the first characters of a line take when they are shown. Behind the end of
the line every column counts as one. -/
def displayWidth : List Char → Nat → Nat
  | _, 0 => 0
  | [], column + 1 => column + 1
  | character :: rest, column + 1 => widthOf character + displayWidth rest column

/-- Blanks up to the guilty part of a line, and a caret under each of its columns. There is always
at least one caret. -/
def underline (line : List Char) (start stop : Nat) : List Char :=
  let offset := displayWidth line start
  let upTo := max (displayWidth line stop) (offset + 1)
  List.replicate offset ' ' ++ List.replicate (upTo - offset) '^'

def excerpt (diagnostic : Diagnostic) (source : List Char) : List Char :=
  let all := Source.lines source
  let first := diagnostic.span.start
  let last := diagnostic.span.stop
  if first.line = last.line then
    s!"Error on line {first.line}: {diagnostic.message}\n".toList ++
      match Source.line? all first.line with
      | none => []
      | some line =>
        expandTabs line ++ '\n' :: underline line first.column last.column ++ ['\n']
  else
    let concerned := (all.zipIdx 1).filter fun numbered =>
      first.line ≤ numbered.2 && numbered.2 ≤ last.line
    s!"Error on lines {first.line} through {last.line}: {diagnostic.message}\n".toList ++
      concerned.flatMap fun numbered => ['>', '>', ' '] ++ expandTabs numbered.1 ++ ['\n']

def render (diagnostic : Diagnostic) (source : String) : String :=
  String.ofList (diagnostic.excerpt source.toList)

end TabScript.Diagnostic
