/-
  The forms of the lines of an input file, as patterns.

  * `sectionHeader`: a name in square brackets;
  * `parameter`: a name, an equals sign and a value;
  * `header n` and `row n`: `n` names, or `n` values, with a comma, a semicolon
    or a space between each two; a value is bare or quoted (`value`);
  * `flatMarker`: the line that announces a flat table.

  Blanks may surround every part.  The functions behind the forms
  (`sectionName?`, `parameter?`, `header?`, `row?`, …) match a line and read its
  groups.  How many names a header has is counted by the separators in it
  (`columnCount`).

  Patterns are taken to compile: a form has no bound on its size, and no line is
  refused because it has too many columns.
-/
import Stencil.Pattern
import Stencil.Text.Blank
import Stencil.Text.Escape
import Stencil.Text.Name

namespace Stencil.LineForm

open Pattern Text

variable {ι : Type}

/-! ## Parts of lines -/

/-- One given character. -/
def char (c : Char) : Pattern ι :=
  .one (· == c)

/-- Blanks, as many as there are. -/
def blanks : Pattern ι :=
  .run isBlank

/-- A name. -/
def name : Pattern ι :=
  .word isNameStart isNameChar

/-- A pattern with blanks around it. -/
def padded (p : Pattern ι) : Pattern ι :=
  .seq blanks (.seq p blanks)

/-- The characters between the double quotes of a quoted value: a backslash
    with the character behind it, or anything but a double quote. -/
def quotedText : Pattern ι :=
  .runPairs (· == '\\') (· != '\n') (· != '"')

/-- How a value is written: as it is, or between double quotes. -/
inductive Style where
  | bare
  | quoted
  deriving DecidableEq, Repr

/-- A value: characters of a class as they are, or any text between double
    quotes.  Its text is the group `label .bare` or `label .quoted`. -/
def value (isBare : Char → Bool) (label : Style → ι) : Pattern ι :=
  .alt (.group (label .bare) (.word isBare isBare))
    (.seq (char '"') (.seq (.group (label .quoted) quotedText) (char '"')))

/-- `n` units, numbered from `i`, with a comma, a semicolon or a space between
    each two. -/
def listFrom (unit : Nat → Pattern ι) : Nat → Nat → Pattern ι
  | _, 0 => .empty
  | i, 1 => unit i
  | i, n + 2 =>
    .seq (unit i) (.seq (.one fun c => c == ',' || c == ';' || c == ' ') (listFrom unit (i + 1) (n + 1)))

/-! ## The forms -/

/-- A section header: a name in square brackets, up to the last one. -/
def sectionHeader : Pattern Unit :=
  padded (.seq (char '[') (.seq (.group () (.word (· != '\n') (· != '\n'))) (char ']')))

/-- The groups of a parameter line. -/
inductive ParameterPart where
  | name
  | value (style : Style)
  deriving DecidableEq, Repr

/-- The characters of a bare parameter value. -/
def isBareValue (c : Char) : Bool :=
  c != '"' && c != ' '

/-- A parameter: a name, an equals sign and a value. -/
def parameter : Pattern ParameterPart :=
  .seq (padded (.group .name name))
    (.seq (char '=') (padded (value isBareValue .value)))

/-- The line that announces a flat table. -/
def flatMarker (marker : String) : Pattern Unit :=
  padded (.literal marker.toList)

/-- A table header of `n` names; the groups are the columns' numbers. -/
def header (n : Nat) : Pattern Nat :=
  listFrom (fun i => padded (.group i name)) 0 n

/-- The characters of a bare cell. -/
def isBareCell (c : Char) : Bool :=
  c != ',' && c != ';' && c != '"' && c != ' '

/-- A row of `n` values; the groups are a column's number and a style. -/
def row (n : Nat) : Pattern (Nat × Style) :=
  listFrom (fun i => padded (value isBareCell fun style => (i, style))) 0 n

/-! ## Reading lines -/

/-- The text of a value: of a quoted one what its escapes stand for. -/
def valueText? [DecidableEq ι] (m : Match ι) (label : Style → ι) : Option (List Char) :=
  (m.text? (label .bare)).or ((m.text? (label .quoted)).map unescape)

/-- The name of the section whose header a line is. -/
def sectionName? (line : String) : Option String := do
  let m ← sectionHeader.match? (trim line.toList)
  let text ← m.text? ()
  return String.ofList text

/-- The name and the value of a parameter line. -/
def parameter? (line : String) : Option (String × String) := do
  let m ← parameter.match? line.toList
  let key ← m.text? .name
  let text ← valueText? m .value
  return (String.ofList key, String.ofList text)

/-- Whether a line announces a flat table. -/
def isFlatMarker (marker line : String) : Bool :=
  (flatMarker marker).fits line.toList

/-- What is ahead behind a separator at the front of a text: a comma or a semicolon
    with blanks around it, or blanks alone. -/
def behindSeparator? (s : List Char) : Option (List Char) :=
  let ahead := s.dropWhile isBlank
  if ahead.head?.any fun c => c == ',' || c == ';' then some (ahead.tail.dropWhile isBlank)
  else if s.head?.any isBlank then some ahead
  else none

/-- A separator is not empty. -/
theorem length_behindSeparator? {s rest : List Char} (h : behindSeparator? s = some rest) :
    rest.length < s.length := by
  have drop (t : List Char) : (t.dropWhile isBlank).length ≤ t.length :=
    (List.dropWhile_sublist isBlank).length_le
  simp only [behindSeparator?] at h
  split at h
  · next hc =>
    cases h
    have front : s.dropWhile isBlank ≠ [] := by
      intro e
      simp [e] at hc
    have := List.length_pos_iff.2 front
    have := drop s
    have := drop (s.dropWhile isBlank).tail
    simp only [List.length_tail] at this
    omega
  · split at h
    · next hb =>
      cases h
      cases s with
      | nil => simp at hb
      | cons c r =>
        simp only [List.head?_cons, Option.any_some] at hb
        rw [List.dropWhile_cons_of_pos hb]
        exact Nat.lt_succ_of_le (drop r)
    · cases h

/-- The number of pieces that separators cut a text into. -/
def pieceCount : List Char → Nat
  | [] => 1
  | c :: r =>
    match h : behindSeparator? (c :: r) with
    | none => pieceCount r
    | some rest => pieceCount rest + 1
termination_by s => s.length
decreasing_by
  · exact Nat.lt_succ_self r.length
  · exact length_behindSeparator? h

/-- The number of columns that a header line declares. -/
def columnCount (line : String) : Nat :=
  pieceCount (trim line.toList)

/-- The texts of the groups of a header of `n` names. -/
def headerGroups? (n : Nat) (line : String) : Option (List (Option String)) := do
  let m ← (header n).match? line.toList
  return (List.range n).map fun i => (m.text? i).map String.ofList

/-- The texts of the groups of a row of `n` values: of each value the bare and
    the quoted one. -/
def rowGroups? (n : Nat) (line : String) : Option (List (Option String)) := do
  let m ← (row n).match? line.toList
  return (List.range n).flatMap fun i =>
    [(m.text? (i, .bare)).map String.ofList, (m.text? (i, .quoted)).map String.ofList]

/-- The columns of a header line: as many names as it has pieces.  The pattern for
    so many names is taken to compile. -/
def header? (line : String) : Option (List String) := do
  let groups ← headerGroups? (columnCount line) line
  return groups.filterMap id

/-- The values of a row of `n` cells.  The pattern for so many cells is taken to
    compile. -/
def row? (n : Nat) (line : String) : Option (List String) := do
  let m ← (row n).match? line.toList
  return (List.range n).map fun i => String.ofList ((valueText? m fun style => (i, style)).getD [])

end Stencil.LineForm
