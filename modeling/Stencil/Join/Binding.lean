/-
  Binding a plan to tables.

  The tables are given in the order of the plan's names.  Binding finds a table
  for each name and the numbers of the columns that the keys name, before any row
  is looked at.

  * `supplied` picks the tables, `bindJoins` the columns;
  * `bind` does both.
-/
import Stencil.Query.Plan
import Stencil.Table

namespace Stencil.Join

open Query

/-- A key with the numbers of its columns. -/
structure Link where
  /-- The position of the other table. -/
  foreignTable : Nat
  foreignColumn : Nat
  /-- The column of the joined table. -/
  localColumn : Nat
  deriving DecidableEq, Repr

/-- A table that is joined to those in front of it, by columns. -/
structure Step where
  table : Table
  links : List Link
  deriving DecidableEq, Repr

/-- The tables for the given names, which have to stand in the same order.
    Further tables are left out. -/
def supplied : List String → List Table → Except Fault (List Table)
  | [], _ => .ok []
  | name :: _, [] => .error (.missingTable name)
  | name :: names, table :: tables =>
    if table.name = name then (table :: ·) <$> supplied names tables
    else .error (.missingTable name)

/-- The number of a column that a key names. -/
def column (table : Table) (name : String) : Except Fault Nat :=
  match table.columnIndex? name with
  | some index => .ok index
  | none => .error (.unknownColumn table.name name)

/-- The columns of a key, where `table` is joined to the tables `joined`. -/
def bindKey (joined : List Table) (table : Table) (join : Query.Join) (key : Key) :
    Except Fault Link := do
  match joined[key.foreignTable]? with
  | none =>
    throw (.internal ("key of join `" ++ join.table ++ "` refers to table position " ++
      toString key.foreignTable ++ ", which is not joined yet"))
  | some foreign =>
    let foreignColumn ← column foreign key.foreignColumn
    let localColumn ← column table key.localColumn
    return ⟨key.foreignTable, foreignColumn, localColumn⟩

/-- The columns of joins, where their tables are joined one after the other to
    the tables `joined`. -/
def bindJoins (joined : List Table) : List Query.Join → List Table → Except Fault (List Step)
  | [], _ => .ok []
  | join :: _, [] => .error (.missingTable join.table)
  | join :: joins, table :: tables => do
    let links ← join.keys.mapM (bindKey joined table join)
    let steps ← bindJoins (joined ++ [table]) joins tables
    return ⟨table, links⟩ :: steps

/-- The tables of a plan, and the steps that join them. -/
def bind (plan : Plan) (tables : List Table) : Except Fault (List Table × List Step) := do
  let tables ← supplied plan.names tables
  let steps ← bindJoins (tables.take 1) plan.joins (tables.drop 1)
  return (tables, steps)

end Stencil.Join
