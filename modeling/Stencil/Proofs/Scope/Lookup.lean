/-
  Every name among tables that can be told apart, and its value in a joined row.

  * `StandsFor`: what a name stands for, said of the tables alone;
  * `resolve_eq_iff`: this is what the scope of the tables says;
  * `get?_values_resolve`: the values of a joined row hold the cell that a name stands
    for, and nothing for a name that stands for no cell or for several.
-/
import Stencil.Proofs.Scope.Variables

namespace Stencil

open Join

/-- The tables that have a column of a name. -/
def havingColumn (tables : List Table) (name : String) : List Table :=
  tables.filter fun table => name ∈ table.columns

/-- What a name stands for. -/
inductive StandsFor (tables : List Table) (name : String) : Resolution → Prop
  | qualified {position index table column} : tables[position]? = some table →
      table.columns[index]? = some column → name = qualifiedName table.name column →
      StandsFor tables name (.qualified position index)
  | bare {position index table} : tables[position]? = some table →
      table.columns[index]? = some name →
      (∀ (other : Nat) (table' : Table), tables[other]? = some table' → name ∈ table'.columns →
        other = position) →
      StandsFor tables name (.bare position index)
  | ambiguous : 2 ≤ (havingColumn tables name).length →
      StandsFor tables name
        (.ambiguous ((havingColumn tables name).map fun table => qualifiedName table.name name))
  | undefined : (∀ table ∈ tables, name ∉ table.columns) →
      (∀ table ∈ tables, ∀ column ∈ table.columns, name ≠ qualifiedName table.name column) →
      StandsFor tables name .undefined

/-- The cell of a joined row in a table and a column, both given by their positions. -/
def Join.cell? (tables : List Table) (row : Row) (position index : Nat) : Option String := do
  let table ← tables[position]?
  let number ← row[position]?
  table.cell? number index

/-- The text in a joined row of what a name stands for. -/
def Resolution.text? (tables : List Table) (row : Row) : Resolution → Option String
  | .bare position index | .qualified position index => Join.cell? tables row position index
  | .ambiguous _ | .undefined => none

namespace Scope

/-! ## Names of several columns -/

theorem map_zipIdx_filter {β : Type} (tables : List Table) (name : String) (f : Table → β) :
    (tables.zipIdx.filter fun e => name ∈ e.1.columns).map (fun e => f e.1) =
      (havingColumn tables name).map f := by
  have hfst : ((tables.zipIdx.map Prod.fst).filter fun table => name ∈ table.columns).map f =
      (havingColumn tables name).map f := by
    rw [List.zipIdx_map_fst, havingColumn]
  rw [← hfst, List.filter_map, List.map_map]
  rfl

theorem length_ownersOf (tables : List Table) (name : String) :
    ((ofTables tables).ownersOf name).length = (havingColumn tables name).length := by
  have h := congrArg List.length (map_zipIdx_filter tables name id)
  rw [ownersOf_ofTables, List.length_map]
  simpa using h

theorem alternatives_ofTables (tables : List Table) (name : String) :
    (ofTables tables).alternatives name =
      (havingColumn tables name).map fun table => qualifiedName table.name name := by
  rw [alternatives, ownersOf_ofTables, List.map_map, ← map_zipIdx_filter]
  refine List.map_congr_left fun e he => ?_
  have htable := List.mem_zipIdx_iff_getElem?.1 (List.mem_filter.1 he).1
  simp [ofTables, htable]

/-- The bare names are those of the columns that one table has. -/
theorem mem_bareNames {tables : List Table} {name : String} :
    name ∈ (ofTables tables).bareNames ↔ (havingColumn tables name).length = 1 := by
  rw [← length_ownersOf, ownersOf, Std.ExtTreeMap.getD_eq_getD_getElem?]
  simp only [bareNames, List.mem_map, List.mem_filter, Prod.exists, exists_and_right,
    exists_eq_right, Std.ExtTreeMap.mem_toList_iff_getElem?_eq_some, beq_iff_eq]
  cases (ofTables tables).owners[name]? <;> simp

/-- A column at one position only belongs to one table. -/
theorem length_havingColumn_of_only {tables : List Table} {position : Nat} {table : Table}
    {name : String} (htable : tables[position]? = some table) (hcolumn : name ∈ table.columns)
    (honly : ∀ (other : Nat) (table' : Table), tables[other]? = some table' →
      name ∈ table'.columns → other = position) :
    (havingColumn tables name).length = 1 := by
  have hone : (ofTables tables).ownersOf name = [position] := by
    refine ownersOf_eq_singleton.2 ⟨mem_ownersOf.2 ⟨table, htable, hcolumn⟩, fun other hother => ?_⟩
    obtain ⟨table', ht, hname⟩ := mem_ownersOf.1 hother
    exact honly other table' ht hname
  rw [← length_ownersOf, hone, List.length_singleton]

theorem exists_position_of_mem_havingColumn {tables : List Table} {table : Table} {name : String}
    (h : table ∈ havingColumn tables name) :
    ∃ position index : Nat, tables[position]? = some table ∧
      table.columns[index]? = some name := by
  obtain ⟨htable, hcolumn⟩ := List.mem_filter.1 h
  obtain ⟨position, hposition⟩ := List.mem_iff_getElem?.1 htable
  obtain ⟨index, hindex⟩ := List.mem_iff_getElem?.1 (of_decide_eq_true hcolumn)
  exact ⟨position, index, hposition, hindex⟩

theorem resolve_eq_ambiguous {tables : List Table} (h : Plain tables) {name : String}
    {alternatives : List String} :
    (ofTables tables).resolve name = .ambiguous alternatives ↔
      2 ≤ (havingColumn tables name).length ∧
        alternatives = (havingColumn tables name).map fun table =>
          qualifiedName table.name name := by
  rw [← alternatives_ofTables, ← length_ownersOf]
  constructor
  · intro hambiguous
    unfold resolve at hambiguous
    split at hambiguous
    · split at hambiguous <;> cases hambiguous
    · unfold resolveBare at hambiguous
      split at hambiguous
      · cases hambiguous
      · split at hambiguous <;> cases hambiguous
      · rename_i hnone hone
        cases hambiguous
        refine ⟨?_, rfl⟩
        match howners : (ofTables tables).ownersOf name with
        | [] => exact absurd howners hnone
        | [position] => exact absurd howners (hone position)
        | _ :: _ :: rest => simp
  · rintro ⟨hlength, rfl⟩
    have hname : '.' ∉ name.toList := by
      rw [length_ownersOf] at hlength
      obtain ⟨table, hmem⟩ := List.exists_mem_of_length_pos (Nat.zero_lt_two.trans_le hlength)
      obtain ⟨htable, hcolumn⟩ := List.mem_filter.1 hmem
      exact h.dot_notMem_column table htable name (of_decide_eq_true hcolumn)
    rw [resolve, splitAtDot?_eq_none.2 hname]
    simp only [resolveBare]
    split
    · rename_i hnil
      simp [hnil] at hlength
    · rename_i hone
      simp [hone] at hlength
    · rfl

/-! ## All names -/

/-- A column that a table has stands for something by its name alone. -/
theorem resolve_ne_undefined {tables : List Table} (h : Plain tables) {table : Table}
    {name : String} (htable : table ∈ tables) (hcolumn : name ∈ table.columns) :
    (ofTables tables).resolve name ≠ .undefined := by
  have hmem : table ∈ havingColumn tables name :=
    List.mem_filter.2 ⟨htable, decide_eq_true hcolumn⟩
  by_cases hlength : 2 ≤ (havingColumn tables name).length
  · rw [(resolve_eq_ambiguous h).2 ⟨hlength, rfl⟩]
    simp
  · obtain ⟨position, index, hposition, hindex⟩ := exists_position_of_mem_havingColumn hmem
    have hone : (ofTables tables).ownersOf name = [position] := by
      have hpos := List.length_pos_of_mem hmem
      have howner := mem_ownersOf.2 ⟨table, hposition, hcolumn⟩
      obtain ⟨other, hother⟩ := List.length_eq_one_iff.1
        (show ((ofTables tables).ownersOf name).length = 1 by rw [length_ownersOf]; omega)
      rw [hother, List.mem_singleton] at howner
      rw [hother, howner]
    have hbare : (ofTables tables).resolve name = .bare position index := by
      refine (resolve_eq_bare h).2 ⟨⟨table, hposition, hindex⟩, fun other table' ht hname => ?_⟩
      exact (ownersOf_eq_singleton.1 hone).2 other (mem_ownersOf.2 ⟨table', ht, hname⟩)
    rw [hbare]
    simp

theorem resolve_eq_undefined {tables : List Table} (h : Plain tables) {name : String} :
    (ofTables tables).resolve name = .undefined ↔
      (∀ table ∈ tables, name ∉ table.columns) ∧
        ∀ table ∈ tables, ∀ column ∈ table.columns, name ≠ qualifiedName table.name column := by
  constructor
  · intro hundefined
    refine ⟨fun table htable hcolumn => resolve_ne_undefined h htable hcolumn hundefined, ?_⟩
    rintro table htable column hcolumn rfl
    obtain ⟨position, hposition⟩ := List.mem_iff_getElem?.1 htable
    obtain ⟨index, hindex⟩ := List.mem_iff_getElem?.1 hcolumn
    rw [(resolve_eq_qualified h).2 ⟨table, column, hposition, hindex, rfl⟩] at hundefined
    cases hundefined
  · rintro ⟨hbare, hqualified⟩
    cases hresolve : (ofTables tables).resolve name with
    | bare position index =>
      obtain ⟨⟨table, htable, hindex⟩, -⟩ := (resolve_eq_bare h).1 hresolve
      exact absurd (List.mem_of_getElem? hindex) (hbare table (List.mem_of_getElem? htable))
    | qualified position index =>
      obtain ⟨table, column, htable, hindex, hname⟩ := (resolve_eq_qualified h).1 hresolve
      exact absurd hname (hqualified table (List.mem_of_getElem? htable) column
        (List.mem_of_getElem? hindex))
    | ambiguous alternatives =>
      obtain ⟨hlength, -⟩ := (resolve_eq_ambiguous h).1 hresolve
      obtain ⟨table, hmem⟩ := List.exists_mem_of_length_pos (Nat.zero_lt_two.trans_le hlength)
      obtain ⟨htable, hcolumn⟩ := List.mem_filter.1 hmem
      exact absurd (of_decide_eq_true hcolumn) (hbare table htable)
    | undefined => rfl

/-- **What a name stands for** is read off the tables. -/
theorem resolve_eq_iff {tables : List Table} (h : Plain tables) {name : String}
    {resolution : Resolution} :
    (ofTables tables).resolve name = resolution ↔ StandsFor tables name resolution := by
  constructor
  · rintro rfl
    cases hresolve : (ofTables tables).resolve name with
    | bare position index =>
      obtain ⟨⟨table, htable, hindex⟩, honly⟩ := (resolve_eq_bare h).1 hresolve
      exact .bare htable hindex honly
    | qualified position index =>
      obtain ⟨table, column, htable, hindex, hname⟩ := (resolve_eq_qualified h).1 hresolve
      exact .qualified htable hindex hname
    | ambiguous alternatives =>
      obtain ⟨hlength, rfl⟩ := (resolve_eq_ambiguous h).1 hresolve
      exact .ambiguous hlength
    | undefined =>
      obtain ⟨hbare, hqualified⟩ := (resolve_eq_undefined h).1 hresolve
      exact .undefined hbare hqualified
  · intro hstands
    cases hstands with
    | bare htable hindex honly => exact (resolve_eq_bare h).2 ⟨⟨_, htable, hindex⟩, honly⟩
    | qualified htable hindex hname =>
      exact (resolve_eq_qualified h).2 ⟨_, _, htable, hindex, hname⟩
    | ambiguous hlength => exact (resolve_eq_ambiguous h).2 ⟨hlength, rfl⟩
    | undefined hbare hqualified => exact (resolve_eq_undefined h).2 ⟨hbare, hqualified⟩

/-- Each alternative of an ambiguous name stands for one column. -/
theorem resolve_alternative {tables : List Table} (h : Plain tables) {name alternative : String}
    (hmem : alternative ∈ (havingColumn tables name).map fun table =>
      qualifiedName table.name name) :
    ∃ position index, (ofTables tables).resolve alternative = .qualified position index := by
  obtain ⟨table, htable, rfl⟩ := List.mem_map.1 hmem
  obtain ⟨position, index, hposition, hindex⟩ := exists_position_of_mem_havingColumn htable
  exact ⟨position, index, (resolve_eq_qualified h).2 ⟨table, name, hposition, hindex, rfl⟩⟩

/-! ## Values -/

/-- A column has a cell in a joined row, which is also found by the name of the column. -/
theorem exists_cell {tables : List Table} {row : Row}
    (hrow : ∀ (position : Nat) (table : Table), tables[position]? = some table →
      ∃ number, row[position]? = some number ∧ number < table.size)
    {position index : Nat} {table : Table} {column : String}
    (htable : tables[position]? = some table) (hindex : table.columns[index]? = some column) :
    ∃ text, Join.cell? tables row position index = some text ∧
      cellAt? tables row position column = some text := by
  obtain ⟨text, htext⟩ := exists_cellAt? hrow htable (List.mem_of_getElem? hindex)
  obtain ⟨table', number, htable', hnumber, hvalue⟩ := cellAt?_eq_some.1 htext
  cases htable.symm.trans htable'
  obtain ⟨cells, index', hcells, hindex', hcell⟩ := Table.value?_eq_some.1 hvalue
  obtain rfl : index' = index := by
    have hlt := (List.getElem?_eq_some_iff.1 hindex').1
    exact (List.getElem?_inj hlt table.nodup_columns).1 (hindex'.trans hindex.symm)
  refine ⟨text, ?_, htext⟩
  simp [Join.cell?, htable, hnumber, Table.cell?, hcells, hcell]

/-- A variable stands for a cell. -/
theorem resolve_of_variable {tables : List Table} (h : Plain tables) {row : Row}
    {name text : String} (hv : Variable tables row name text) :
    ∃ position index, (ofTables tables).resolve name = .bare position index ∨
      (ofTables tables).resolve name = .qualified position index := by
  cases hv with
  | @qualified position table column _ htable hcell =>
    obtain ⟨table', _, htable', -, hvalue⟩ := cellAt?_eq_some.1 hcell
    cases htable.symm.trans htable'
    obtain ⟨index, hindex⟩ := List.mem_iff_getElem?.1 (Table.mem_columns_of_value? hvalue)
    exact ⟨position, index, Or.inr ((resolve_eq_qualified h).2
      ⟨table, column, htable, hindex, rfl⟩)⟩
  | @bare position _ _ honly hcell =>
    obtain ⟨table, htable, hcolumn⟩ := exists_mem_columns hcell
    obtain ⟨index, hindex⟩ := List.mem_iff_getElem?.1 hcolumn
    exact ⟨position, index, Or.inl ((resolve_eq_bare h).2 ⟨⟨table, htable, hindex⟩, honly⟩)⟩

/-- The values of a joined row hold what a name stands for. -/
theorem get?_values_resolve {tables : List Table} (h : Plain tables) {row : Row}
    (hrow : ∀ (position : Nat) (table : Table), tables[position]? = some table →
      ∃ number, row[position]? = some number ∧ number < table.size) (name : String) :
    ((ofTables tables).values tables row).get? name =
      ((ofTables tables).resolve name).text? tables row := by
  have hnone : (∀ position index, (ofTables tables).resolve name ≠ .bare position index) →
      (∀ position index, (ofTables tables).resolve name ≠ .qualified position index) →
      ((ofTables tables).values tables row).get? name = none := by
    intro hbare hqualified
    refine Option.eq_none_iff_forall_ne_some.2 fun text htext => ?_
    obtain ⟨position, index, hresolve⟩ := resolve_of_variable h ((get?_values h).1 htext)
    exact hresolve.elim (hbare position index) (hqualified position index)
  cases hresolve : (ofTables tables).resolve name with
  | bare position index =>
    obtain ⟨⟨table, htable, hindex⟩, honly⟩ := (resolve_eq_bare h).1 hresolve
    obtain ⟨text, htext, hcell⟩ := exists_cell hrow htable hindex
    exact ((get?_values h).2 (.bare honly hcell)).trans htext.symm
  | qualified position index =>
    obtain ⟨table, column, htable, hindex, rfl⟩ := (resolve_eq_qualified h).1 hresolve
    obtain ⟨text, htext, hcell⟩ := exists_cell hrow htable hindex
    exact ((get?_values h).2 (.qualified htable hcell)).trans htext.symm
  | ambiguous alternatives => exact hnone (by simp [hresolve]) (by simp [hresolve])
  | undefined => exact hnone (by simp [hresolve]) (by simp [hresolve])

/-- **A name stands for the same thing wherever it is looked up.**  The scope of tables that
    can be told apart says what each name stands for, the alternatives of an ambiguous name
    stand for one column each, and a joined row holds the cell that a name stands for, and
    nothing else. -/
theorem resolve_agrees_values {tables : List Table} (h : Plain tables) {row : Row}
    (hrow : ∀ (position : Nat) (table : Table), tables[position]? = some table →
      ∃ number, row[position]? = some number ∧ number < table.size) (name : String) :
    (∀ resolution, (ofTables tables).resolve name = resolution ↔
      StandsFor tables name resolution) ∧
    (∀ alternatives, (ofTables tables).resolve name = .ambiguous alternatives →
      ∀ alternative ∈ alternatives, ∃ position index,
        (ofTables tables).resolve alternative = .qualified position index) ∧
    ((ofTables tables).values tables row).get? name =
      ((ofTables tables).resolve name).text? tables row ∧
    ∀ position index, (ofTables tables).resolve name = .bare position index ∨
      (ofTables tables).resolve name = .qualified position index →
      ∃ text, Join.cell? tables row position index = some text := by
  refine ⟨fun _ => resolve_eq_iff h, ?_, get?_values_resolve h hrow name, ?_⟩
  · intro alternatives hambiguous alternative hmem
    rw [((resolve_eq_ambiguous h).1 hambiguous).2] at hmem
    exact resolve_alternative h hmem
  · rintro position index (hbare | hqualified)
    · obtain ⟨⟨table, htable, hindex⟩, -⟩ := (resolve_eq_bare h).1 hbare
      obtain ⟨text, htext, -⟩ := exists_cell hrow htable hindex
      exact ⟨text, htext⟩
    · obtain ⟨table, column, htable, hindex, -⟩ := (resolve_eq_qualified h).1 hqualified
      obtain ⟨text, htext, -⟩ := exists_cell hrow htable hindex
      exact ⟨text, htext⟩

/-- Two tables that share the name of a column. -/
theorem resolve_orders :
    let orders : Table := ⟨"orders", ["id", "name"], [["1", "pens"], ["2", "ink"]], by decide,
      by decide⟩
    let customers : Table := ⟨"customers", ["name", "cid"], [["Ann", "1"]], by decide, by decide⟩
    let tables := [orders, customers]
    let scope := Scope.ofTables tables
    scope.resolve "name" = .ambiguous ["orders.name", "customers.name"] ∧
      (scope.values tables [1, 0]).get? "name" = none ∧
      (scope.values tables [1, 0]).get? "orders.name" = some "ink" ∧
      (scope.values tables [1, 0]).get? "cid" = some "1" := by
  intro orders customers tables scope
  have hplain : Plain tables := ⟨by decide, by decide +kernel, by decide +kernel⟩
  have hrow : ∀ (position : Nat) (table : Table), tables[position]? = some table →
      ∃ number, [1, 0][position]? = some number ∧ number < table.size := by
    rintro (_ | _ | position) table htable
    · cases htable
      exact ⟨1, rfl, by decide⟩
    · cases htable
      exact ⟨0, rfl, by decide⟩
    · cases htable
  obtain ⟨hname, -, htext, -⟩ := resolve_agrees_values hplain hrow "name"
  have hambiguous : scope.resolve "name" = .ambiguous ["orders.name", "customers.name"] :=
    (hname _).2 (.ambiguous (by decide))
  refine ⟨hambiguous, ?_, ?_, ?_⟩
  · rw [htext, hambiguous]
    rfl
  · obtain ⟨horders, -, htext, -⟩ := resolve_agrees_values hplain hrow "orders.name"
    rw [htext, (horders (.qualified 0 1)).2 (.qualified rfl rfl rfl)]
    rfl
  · obtain ⟨hcid, -, htext, -⟩ := resolve_agrees_values hplain hrow "cid"
    have honly : ∀ (other : Nat) (table : Table), tables[other]? = some table →
        "cid" ∈ table.columns → other = 1 := by
      rintro (_ | _ | other) table htable hcolumn
      · cases htable
        exact absurd hcolumn (by decide)
      · rfl
      · cases htable
    rw [htext, (hcid (.bare 1 1)).2 (.bare rfl rfl honly)]
    rfl

end Scope

end Stencil
