/-
  Plans as JSON values.

  `Plan.record` writes a plan as an object with a member for each part, and
  `Plan.ofRecord?` reads it back.
-/
import Stencil.Json
import Stencil.Query.Plan

namespace Stencil.Query

/-- A key as an object. -/
def Key.record (k : Key) : Json :=
  .object [
    ("foreign_table", .integer k.foreignTable), ("foreign_column", .string k.foreignColumn),
    ("local_column", .string k.localColumn)]

/-- The key that a value says. -/
def Key.ofRecord? (j : Json) : Option Key := do
  let member ← j.members? ["foreign_table", "foreign_column", "local_column"]
  let foreignTable ← (← member "foreign_table") |> Json.word?
  let foreignColumn ← (← member "foreign_column") |> Json.string?
  let localColumn ← (← member "local_column") |> Json.string?
  return ⟨foreignTable, foreignColumn, localColumn⟩

/-- A join as an object. -/
def Join.record (j : Join) : Json :=
  .object [("table", .string j.table), ("keys", .array (j.keys.map Key.record))]

/-- The join that a value says. -/
def Join.ofRecord? (j : Json) : Option Join := do
  let member ← j.members? ["table", "keys"]
  let table ← (← member "table") |> Json.string?
  let keys ← (← (← member "keys") |> Json.array?).mapM Key.ofRecord?
  return ⟨table, keys⟩

/-- A plan as an object. -/
def Plan.record (p : Plan) : Json :=
  .object [("base", .string p.base), ("joins", .array (p.joins.map Join.record))]

/-- The plan that a value says. -/
def Plan.ofRecord? (j : Json) : Option Plan := do
  let member ← j.members? ["base", "joins"]
  let base ← (← member "base") |> Json.string?
  let joins ← (← (← member "joins") |> Json.array?).mapM Join.ofRecord?
  return ⟨base, joins⟩

end Stencil.Query
