/-
  Comments and clean lines.

  A `#` starts a comment that runs to the end of the line, unless it stands
  between double quotes; between double quotes a backslash takes away the
  meaning of the next character.

  * `stripComment` removes the comment of a line;
  * `clean` also removes the blanks around what is left, and `cleanLines`
    keeps the lines of a list that are then not empty.
-/
import Stencil.Text.Blank

namespace Stencil.Text

/-- Where a reader of a line stands: outside double quotes, between them, or
    between them and right after a backslash. -/
inductive Quoting where
  | outside
  | inside
  | escaped
  deriving DecidableEq, Repr

/-- Where a reader stands after one more character. -/
def Quoting.step : Quoting → Char → Quoting
  | .outside, c => if c = '"' then .inside else .outside
  | .inside, c => if c = '\\' then .escaped else if c = '"' then .outside else .inside
  | .escaped, _ => .inside

/-- The part of a line in front of its comment, for a reader at `q`. -/
def stripCommentFrom : Quoting → List Char → List Char
  | _, [] => []
  | q, c :: r => if q = .outside ∧ c = '#' then [] else c :: stripCommentFrom (q.step c) r

/-- The part of a line in front of its comment. -/
def stripComment (line : List Char) : List Char :=
  stripCommentFrom .outside line

/-- A line without its comment and without the blanks around the rest. -/
def clean (line : String) : String :=
  String.ofList (trim (stripComment line.toList))

/-- The lines that say something, clean and in order. -/
def cleanLines (lines : List String) : List String :=
  (lines.map clean).filter (· ≠ "")

end Stencil.Text
