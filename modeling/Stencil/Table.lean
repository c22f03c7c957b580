/-
  Tables: named columns and rows with one cell for each column.

  * `Table` carries that its columns have different names and that every row
    is as wide as the header;
  * `Table.make` builds a table or says what is wrong with its parts;
  * `Table.cell?` reads a cell by row and column numbers, `Table.value?` by row
    number and column name.
-/
import Stencil.Fault

namespace Stencil

/-- A table. -/
structure Table where
  name : String
  columns : List String
  rows : List (List String)
  /-- The columns have different names. -/
  nodup_columns : columns.Nodup
  /-- A row has one cell for each column. -/
  length_row : ∀ row ∈ rows, row.length = columns.length
  deriving DecidableEq, Repr

namespace Table

/-- The names that occur more than once in a list, each once and in order. -/
def repeated (names : List String) : List String :=
  (names.eraseDups.filter fun n => 1 < names.count n).mergeSort

/-- The table with the given columns and rows.  Columns have to differ, and
    rows have to be as wide as the header. -/
def make (name : String) (columns : List String) (rows : List (List String)) :
    Except Fault Table :=
  if nodup : columns.Nodup then
    match found : rows.find? (·.length ≠ columns.length) with
    | some row => .error (.rowSyntax name (", ".intercalate row))
    | none =>
      .ok { name, columns, rows
            nodup_columns := nodup
            length_row := fun row mem => by
              simpa using List.find?_eq_none.1 found row mem }
  else .error (.nameConflict (.tableHeader name) (repeated columns))

/-- The number of the column with a name. -/
def columnIndex? (t : Table) (column : String) : Option Nat :=
  t.columns.idxOf? column

/-- The number of rows. -/
def size (t : Table) : Nat :=
  t.rows.length

/-- The cells of a row. -/
def row? (t : Table) (row : Nat) : Option (List String) :=
  t.rows[row]?

/-- The cell in a row and a column, both given by their numbers. -/
def cell? (t : Table) (row column : Nat) : Option String := do
  let cells ← t.row? row
  cells[column]?

/-- The cell in a row and in the column with a name. -/
def value? (t : Table) (row : Nat) (column : String) : Option String := do
  let index ← t.columnIndex? column
  t.cell? row index

end Table

end Stencil
