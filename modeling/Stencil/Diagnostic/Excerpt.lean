/-
  Excerpts: the line of a source that a snippet is about, drawn with a mark under
  its span and a message at the mark.

      Error: [T-4-1] Query Syntax Error
         ╭─[repeater_parameters:1:8]
         │
       1 │ orders joim customers
         │        ──┬─
         │          ╰─── expected ...
      ───╯

  * `breakLines` and `lineAt` find the line;
  * `columnWidths` are the widths of its columns, and `drawColumns` draws a mark in each
    column;
  * `Snippet.excerpt` is the whole drawing.
-/
import Stencil.Diagnostic
import Stencil.Text.Blank
import Stencil.Text.Width

namespace Stencil

open Text

namespace Excerpt

/-! ## The line -/

/-- The characters that end a line. -/
def isBreak (c : Char) : Bool :=
  c == '\r' || c == '\n' || c == '\x0b' || c == '\x0c' || c == '\u0085' || c == '\u2028' ||
    c == '\u2029'

/-- Put a character in front of the first line.  A carriage return with a line
    feed behind it does not end a line, the line feed does. -/
def consBreak (c : Char) : List (List Char) → List (List Char)
  | [] => [[c]]
  | l :: ls =>
    if isBreak c && !(c == '\r' && l.head? == some '\n') then [c] :: l :: ls else (c :: l) :: ls

/-- The lines of a text, each with what ends it. -/
def breakLines (s : List Char) : List (List Char) :=
  s.foldr consBreak []

/-- A line of a text: its number, the number of characters in front of it, and its
    characters. -/
structure Place where
  number : Nat
  offset : Nat
  line : List Char

/-- The line that holds a character, or else the last one. -/
def lineAt (position number offset : Nat) : List (List Char) → Option Place
  | [] => none
  | [l] => some ⟨number, offset, l⟩
  | l :: ls =>
    if position < offset + l.length then some ⟨number, offset, l⟩
    else lineAt position (number + 1) (offset + l.length) ls

/-! ## Columns -/

/-- The distance between tab stops. -/
def tabWidth : Nat := 4

/-- The width of a character in a column: a tab reaches to the next tab stop. -/
def charWidth (column : Nat) (c : Char) : Nat :=
  if c = '\t' then (column / tabWidth + 1) * tabWidth - column
  else if isBlank c then 1
  else displayWidth c

/-- The widths of the first `count` columns of a line; behind the line every column has
    width 1. -/
def columnWidths (line : List Char) (count : Nat) : List Nat :=
  ((line.zipIdx.map fun (c, column) => charWidth column c) ++ List.replicate count 1).take count

/-- A line as it is shown: blanks are spaces, and a tab is as many as it is wide. -/
def shown (line : List Char) : List Char :=
  line.zipIdx.flatMap fun (c, column) =>
    if c = '\t' then List.replicate (charWidth column c) ' '
    else if isBlank c then [' ']
    else [c]

/-- What is drawn in a column: a character, and another one to fill the column. -/
structure Stroke where
  head : Char
  tail : Char

/-- A column of some width, drawn with a stroke. -/
def Stroke.draw (stroke : Stroke) : Nat → List Char
  | 0 => []
  | width + 1 => stroke.head :: List.replicate width stroke.tail

/-- The first `count` columns under a line, each drawn with its stroke. -/
def drawColumns (line : List Char) (count : Nat) (stroke : Nat → Stroke) : List Char :=
  (columnWidths line count).zipIdx.flatMap fun (width, column) => (stroke column).draw width

/-- The stroke of the marker: a line under the span, with the place where the
    message is attached. -/
def markerStroke (start stop attach column : Nat) : Stroke :=
  if column = attach then
    if start ≤ attach ∧ attach < stop then ⟨'┬', '─'⟩ else ⟨'│', ' '⟩
  else if start ≤ column ∧ column < stop then ⟨'─', '─'⟩
  else ⟨' ', ' '⟩

/-- The stroke of the arrow from the place where the message is attached to the
    message. -/
def arrowStroke (attach column : Nat) : Stroke :=
  if column < attach then ⟨' ', ' '⟩
  else if column = attach then ⟨'╰', '─'⟩
  else ⟨'─', '─'⟩

/-! ## The drawing -/

/-- The drawing of a line with a message under the characters from `start` to
    `stop` of the source. -/
def draw (name message : String) (place : Place) (start stop : Nat) : List String :=
  let first := start - place.offset
  let last := stop - place.offset
  let attach := (start + stop) / 2 - place.offset
  let line := trimEnd place.line
  let number := toString place.number
  let gutter := String.ofList (List.replicate (number.length + 2) ' ')
  let columns := last + 2
  [ gutter ++ "╭─[" ++ name ++ ":" ++ number ++ ":" ++ toString (first + 1) ++ "]",
    gutter ++ "│",
    " " ++ number ++ " │ " ++ String.ofList (shown line),
    gutter ++ "│ " ++ String.ofList (drawColumns line columns (markerStroke first last attach)),
    gutter ++ "│ " ++ String.ofList (drawColumns line columns (arrowStroke attach)) ++ " " ++ message,
    String.ofList (List.replicate (number.length + 2) '─') ++ "╯" ]

end Excerpt

/-- The drawing of a snippet with a message; an empty source has none. -/
def Snippet.excerpt (s : Snippet) (message : String) : List String :=
  let span := s.charSpan
  match Excerpt.lineAt span.start 1 0 (Excerpt.breakLines s.source.toList) with
  | some place => Excerpt.draw s.name message place span.start span.stop
  | none => []

end Stencil
