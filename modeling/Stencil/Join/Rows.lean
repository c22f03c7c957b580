/-
  Joined rows.

  A joined row names one row of each table by its number.  The rows of a join
  stand in the order of the first table's rows, then of the second's, and so on.

  * `matching` finds the rows of a table that belong to a joined row of the
    tables in front of it, through an index of the table;
  * `execute` joins the tables of a plan.
-/
import Stencil.Groups
import Stencil.Join.Binding

namespace Stencil.Join

/-- A joined row: the number of a row in each table. -/
abbrev Row := List Nat

/-- The cells that a joined row of `tables` offers to a step. -/
def foreignKey? (tables : List Table) (links : List Link) (row : Row) : Option (List String) :=
  links.mapM fun link => do
    let table ← tables[link.foreignTable]?
    let index ← row[link.foreignTable]?
    table.cell? index link.foreignColumn

/-- The cells that a row of a step's table asks for. -/
def localKey? (step : Step) (index : Nat) : Option (List String) :=
  step.links.mapM fun link => step.table.cell? index link.localColumn

/-- The numbers of the rows of a step's table by the cells they ask for. -/
def Step.index (step : Step) : Std.ExtTreeMap (List String) (List Nat) :=
  groups ((List.range step.table.size).filterMap fun index =>
    (localKey? step index).map fun key => (key, index))

/-- Extend joined rows by the rows of a step's table that belong to them. -/
def Step.run (tables : List Table) (step : Step) (rows : List Row) : List Row :=
  let index := step.index
  rows.flatMap fun row =>
    match foreignKey? tables step.links row with
    | none => []
    | some key => (index.getD key []).map fun found => row ++ [found]

/-- The rows of the first table. -/
def baseRows : List Table → List Row
  | [] => []
  | table :: _ => (List.range table.size).map fun index => [index]

/-- The joined rows of tables after some steps. -/
def rowsAfter (tables : List Table) (steps : List Step) : List Row :=
  steps.foldl (fun rows step => step.run tables rows) (baseRows tables)

/-- The tables of a join with the rows that it makes of them. -/
structure Result where
  tables : List Table
  rows : List Row
  deriving DecidableEq, Repr

/-- Join the tables of a plan, given in the order of its names. -/
def execute (plan : Query.Plan) (tables : List Table) : Except Fault Result := do
  let (tables, steps) ← bind plan tables
  return ⟨tables, rowsAfter tables steps⟩

/-- Join the tables of a plan, found by their names. -/
def executeNamed (plan : Query.Plan) (table? : String → Option Table) : Except Fault Result := do
  let tables ← plan.names.mapM fun name =>
    match table? name with
    | some table => .ok table
    | none => .error (.missingTable name)
  execute plan tables

namespace Result

/-- The position of the table with a name. -/
def position? (r : Result) (table : String) : Option Nat :=
  r.tables.findIdx? (·.name = table)

/-- The cell of a joined row in a column of a table. -/
def value? (r : Result) (row : Row) (table column : String) : Option String := do
  let position ← r.position? table
  let t ← r.tables[position]?
  let index ← row[position]?
  t.value? index column

end Result

end Stencil.Join
