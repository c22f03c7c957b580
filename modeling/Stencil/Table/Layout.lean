/-
  The layouts in which a section holds a table.

  The first line that says something is the header.  In row layout each line
  behind it is a row.  In flat layout each line is one cell, and as many lines as
  there are columns make up a row.  A flat table is asked for, or announced by
  the flat marker in front of the header.

  * `Table.split` finds the header and the body;
  * `Table.cells` and `Table.flatCells` read the body in the two layouts;
  * `Table.ofLines` reads the whole section.
-/
import Stencil.LineForm
import Stencil.Settings
import Stencil.Table
import Stencil.Text.Comment

namespace Stencil.Table

open Text

/-- The clean lines of a table section: whether the table is announced as flat,
    its header, and the lines behind it. -/
structure Parts where
  announced : Bool
  header : String
  body : List String
  deriving DecidableEq, Repr

/-- The parts of the clean lines of a table section, if there is a header. -/
def split (marker : String) : List String → Option Parts
  | [] => none
  | first :: rest =>
    if LineForm.isFlatMarker marker first then
      match rest with
      | [] => none
      | header :: body => some ⟨true, header, body⟩
    else some ⟨false, first, rest⟩

/-- The cells of a table in row layout, or the first line that is no row. -/
def cells (width : Nat) : List String → Except String (List (List String))
  | [] => .ok []
  | line :: rest =>
    match LineForm.row? width line with
    | none => .error line
    | some row => (row :: ·) <$> cells width rest

/-- The text between the double quotes at the two ends of a text. -/
def unquoted? : List Char → Option (List Char)
  | '"' :: r => if r.getLast? = some '"' then some r.dropLast else none
  | _ => none

/-- The cell on a line of a flat table: a quoted text stands for what its
    escapes say, any other text for itself. -/
def flatCell (line : String) : String :=
  match unquoted? line.toList with
  | some inner => String.ofList (unescape inner)
  | none => line

/-- The cells of a table in flat layout, or the last line of a row that is not
    complete. -/
def flatCells (width : Nat) : List String → Except String (List (List String))
  | [] => .ok []
  | line :: rest =>
    let row := (line :: rest).take width
    if row.length < width ∨ width = 0 then .error (row.getLastD line)
    else (row.map flatCell :: ·) <$> flatCells width (rest.drop (width - 1))
termination_by body => body.length
decreasing_by simp only [List.length_drop, List.length_cons]; omega

/-- The table that a section holds.  The patterns of its lines are taken to compile,
    however wide its header is. -/
def ofLines (settings : Settings) (name : String) (lines : List String) (flat : Bool) :
    Except Fault Table :=
  match split settings.flatMarker (cleanLines lines) with
  | none => .error (.emptyTable name)
  | some parts =>
    match LineForm.header? parts.header with
    | none => .error (.rowSyntax name parts.header)
    | some columns =>
      let read := if flat || parts.announced then flatCells else cells
      match read columns.length parts.body with
      | .error line => .error (.rowSyntax name line)
      | .ok rows => make name columns rows

end Stencil.Table
