/-
  The variables of a joined row.

  Each column of each table is a variable: by its name alone, unless several
  tables have a column of that name, and by the name of its table, a dot and its
  own name.

  * `Scope.resolve` says what a name stands for;
  * `Scope.values` gives the variables of a joined row their values.
-/
import Stencil.Groups
import Stencil.Join.Rows
import Stencil.Values

namespace Stencil

/-- The names of tables and their columns. -/
structure Scope where
  tables : List String
  columns : List (List String)
  /-- The positions of the tables that have a column of a name. -/
  owners : Std.ExtTreeMap String (List Nat)

/-- What a name stands for. -/
inductive Resolution where
  /-- The name of a column that one table has. -/
  | bare (table column : Nat)
  /-- The names of a table and its column. -/
  | qualified (table column : Nat)
  /-- The name of a column that several tables have. -/
  | ambiguous (alternatives : List String)
  | undefined
  deriving DecidableEq, Repr

/-- The name of a column together with that of its table. -/
def qualifiedName (table column : String) : String :=
  table ++ "." ++ column

/-- The two parts of a name around its first dot. -/
def splitAtDot? (name : String) : Option (String × String) :=
  match name.toList.dropWhile (· ≠ '.') with
  | [] => none
  | _ :: column => some (String.ofList (name.toList.takeWhile (· ≠ '.')), String.ofList column)

namespace Scope

/-- The names of the given tables. -/
def ofTables (tables : List Table) : Scope where
  tables := tables.map (·.name)
  columns := tables.map (·.columns)
  owners := groups (tables.zipIdx.flatMap fun (table, position) =>
    table.columns.map fun column => (column, position))

/-- The positions of the tables that have a column of a name. -/
def ownersOf (s : Scope) (column : String) : List Nat :=
  s.owners.getD column []

/-- Whether several tables have a column of a name. -/
def isAmbiguous (s : Scope) (column : String) : Bool :=
  1 < (s.ownersOf column).length

/-- The names of the columns that one table has, in order. -/
def bareNames (s : Scope) : List String :=
  (s.owners.toList.filter fun entry => entry.2.length == 1).map Prod.fst

/-- The columns of a name together with their tables, in the order of the
    tables. -/
def alternatives (s : Scope) (column : String) : List String :=
  (s.ownersOf column).map fun position => qualifiedName (s.tables.getD position "") column

/-- The positions of a table and its column. -/
def locate? (s : Scope) (table column : String) : Option (Nat × Nat) := do
  let position ← s.tables.idxOf? table
  let columns ← s.columns[position]?
  let index ← columns.idxOf? column
  return (position, index)

/-- What the name of a column stands for. -/
def resolveBare (s : Scope) (name : String) : Resolution :=
  match s.ownersOf name with
  | [] => .undefined
  | [position] =>
    match (s.columns.getD position []).idxOf? name with
    | some index => .bare position index
    | none => .undefined
  | _ => .ambiguous (s.alternatives name)

/-- What a name stands for: with a dot it names a table and its column, without
    one a column. -/
def resolve (s : Scope) (name : String) : Resolution :=
  match splitAtDot? name with
  | some (table, column) =>
    match s.locate? table column with
    | some (position, index) => .qualified position index
    | none => .undefined
  | none => s.resolveBare name

/-- The variables of one table of a joined row. -/
def tablePairs (s : Scope) (table : Table) (index : Nat) : List (String × String) :=
  match table.row? index with
  | none => []
  | some cells => (table.columns.zip cells).flatMap fun (column, cell) =>
      (qualifiedName table.name column, cell) ::
        if s.isAmbiguous column then [] else [(column, cell)]

/-- The variables of a joined row of the given tables. -/
def values (s : Scope) (tables : List Table) (row : Join.Row) : Values :=
  .ofPairs ((tables.zip row).flatMap fun (table, index) => s.tablePairs table index)

end Scope

end Stencil
