/-
  Join plans: a base table and the tables that are joined to it, in order.

  Each join matches columns of its table with columns of tables in front of it,
  which are given by their positions.

  * `Plan.names` lists the tables, the base first;
  * `Plan.text` writes a plan as a query, with the columns of its own table on
    the right of each equals sign.
-/

namespace Stencil

namespace Query

/-- A column of a joined table and the column in front of it that has to hold
    the same cell. -/
structure Key where
  /-- The position of the other table. -/
  foreignTable : Nat
  foreignColumn : String
  /-- The column of the joined table. -/
  localColumn : String
  deriving DecidableEq, Repr

/-- A table that is joined to those in front of it. -/
structure Join where
  table : String
  keys : List Key
  deriving DecidableEq, Repr

/-- A base table and the tables joined to it. -/
structure Plan where
  base : String
  joins : List Join
  deriving DecidableEq, Repr

/-- The tables of a plan, in order. -/
def Plan.names (p : Plan) : List String :=
  p.base :: p.joins.map (·.table)

/-- The table at a position. -/
def Plan.tableName? (p : Plan) (position : Nat) : Option String :=
  p.names[position]?

/-- The text of the other side of a key, where `names` are the tables. -/
def Key.foreignText (names : List String) (k : Key) : String :=
  names.getD k.foreignTable "?" ++ "." ++ k.foreignColumn

/-- The text of a join, where `names` are the tables. -/
def Join.text (names : List String) (j : Join) : String :=
  " join " ++ j.table ++ " on " ++
    ", ".intercalate (j.keys.map (·.foreignText names)) ++ " = " ++
    ", ".intercalate (j.keys.map fun k => j.table ++ "." ++ k.localColumn)

/-- The plan as a query. -/
def Plan.text (p : Plan) : String :=
  p.base ++ String.join (p.joins.map (·.text p.names))

end Query

end Stencil
