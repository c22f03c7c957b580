/-
  The variables of a joined row.

  * `Variable`: a name of a cell of the joined row, with the name of its table in
    front of that of its column or, where no other table has such a column, without
    it;
  * `get?_values`: the values of a joined row are the texts of its variables.
-/
import Stencil.Proofs.Join.NestedLoop
import Stencil.Proofs.Scope.Resolution
import Stencil.Proofs.Table
import Stencil.Proofs.Values

namespace Stencil

open Join

/-- The names of the cells of a joined row, with the texts of the cells. -/
inductive Variable (tables : List Table) (row : Row) : String → String → Prop
  | qualified {position table column text} : tables[position]? = some table →
      cellAt? tables row position column = some text →
      Variable tables row (qualifiedName table.name column) text
  | bare {position column text} :
      (∀ (other : Nat) (table : Table), tables[other]? = some table → column ∈ table.columns →
        other = position) →
      cellAt? tables row position column = some text → Variable tables row column text

/-- The column of a cell belongs to its table. -/
theorem exists_mem_columns {tables : List Table} {row : Row} {position : Nat}
    {column text : String} (h : cellAt? tables row position column = some text) :
    ∃ table, tables[position]? = some table ∧ column ∈ table.columns := by
  obtain ⟨table, index, htable, -, hvalue⟩ := cellAt?_eq_some.1 h
  exact ⟨table, htable, Table.mem_columns_of_value? hvalue⟩

/-- **A variable has one text.** -/
theorem Variable.text_inj {tables : List Table} (h : Plain tables) {row : Row}
    {name text text' : String} (hv : Variable tables row name text)
    (hv' : Variable tables row name text') : text = text' := by
  have hdot : ∀ {position column text}, cellAt? tables row position column = some text →
      '.' ∉ column.toList := by
    intro position column text hcell
    obtain ⟨table, htable, hcolumn⟩ := exists_mem_columns hcell
    exact h.dot_notMem_column table (List.mem_of_getElem? htable) column hcolumn
  -- a column has no dot, so a name cannot be of both kinds
  generalize hname : name = name' at hv'
  cases hv with
  | @qualified position table column _ htable hcell =>
    cases hv' with
    | @qualified position' table' column' _ htable' hcell' =>
      obtain ⟨htables, rfl⟩ := qualifiedName_inj
        (h.dot_notMem_name table (List.mem_of_getElem? htable))
        (h.dot_notMem_name table' (List.mem_of_getElem? htable')) hname
      obtain rfl := h.position_inj htable htable' htables
      exact Option.some.inj (hcell.symm.trans hcell')
    | bare _ hcell' =>
      subst hname
      exact absurd (dot_mem_qualifiedName _ _) (hdot hcell')
  | @bare position _ _ honly hcell =>
    cases hv' with
    | qualified _ _ =>
      subst hname
      exact absurd (dot_mem_qualifiedName _ _) (hdot hcell)
    | @bare position' _ _ _ hcell' =>
      subst hname
      obtain ⟨table, htable, hcolumn⟩ := exists_mem_columns hcell'
      obtain rfl := honly position' table htable hcolumn
      exact Option.some.inj (hcell.symm.trans hcell')

namespace Scope

theorem mem_zip_iff {α β : Type} {l : List α} {r : List β} {a : α} {b : β} :
    (a, b) ∈ l.zip r ↔ ∃ i : Nat, l[i]? = some a ∧ r[i]? = some b := by
  simp only [List.mem_iff_getElem?, List.getElem?_zip_eq_some]

theorem mem_tablePairs {s : Scope} {table : Table} {index : Nat} {name text : String} :
    (name, text) ∈ s.tablePairs table index ↔
      ∃ column, table.value? index column = some text ∧
        (name = qualifiedName table.name column ∨
          s.isAmbiguous column = false ∧ name = column) := by
  simp only [tablePairs, Table.value?_eq_some]
  split
  · rename_i hnone
    simp [hnone]
  · rename_i cells hcells
    simp only [hcells, Option.some.injEq, List.mem_flatMap, Prod.exists, mem_zip_iff]
    constructor
    · rintro ⟨column, cell, ⟨i, hcolumn, hcell⟩, hpair⟩
      rcases List.mem_cons.1 hpair with hname | hname
      · cases hname
        exact ⟨column, ⟨cells, i, rfl, hcolumn, hcell⟩, Or.inl rfl⟩
      · split at hname
        · cases hname
        · rename_i hambiguous
          cases List.mem_singleton.1 hname
          exact ⟨name, ⟨cells, i, rfl, hcolumn, hcell⟩,
            Or.inr ⟨Bool.not_eq_true _ ▸ hambiguous, rfl⟩⟩
    · rintro ⟨column, ⟨_, i, rfl, hcolumn, hcell⟩, hname⟩
      refine ⟨column, text, ⟨i, hcolumn, hcell⟩, ?_⟩
      rcases hname with rfl | ⟨hambiguous, rfl⟩
      · exact List.mem_cons_self ..
      · rw [hambiguous]
        simp

/-- The pairs of a joined row are its variables. -/
theorem mem_pairs {tables : List Table} {row : Row} {name text : String} :
    (name, text) ∈ (tables.zip row).flatMap (fun (table, index) =>
        (ofTables tables).tablePairs table index) ↔ Variable tables row name text := by
  simp only [List.mem_flatMap, Prod.exists, mem_zip_iff, mem_tablePairs]
  constructor
  · rintro ⟨table, index, ⟨position, htable, hindex⟩, column, hvalue, hname⟩
    have hcell := cellAt?_eq_some.2 ⟨table, index, htable, hindex, hvalue⟩
    rcases hname with rfl | ⟨hambiguous, rfl⟩
    · exact .qualified htable hcell
    · refine .bare (fun other table' ht hcolumn => ?_) hcell
      exact isAmbiguous_eq_false.1 hambiguous other (mem_ownersOf.2 ⟨table', ht, hcolumn⟩) position
        (mem_ownersOf.2 ⟨table, htable, Table.mem_columns_of_value? hvalue⟩)
  · rintro (⟨htable, hcell⟩ | ⟨honly, hcell⟩)
    · rename_i position table column
      obtain ⟨table', index, htable', hindex, hvalue⟩ := cellAt?_eq_some.1 hcell
      rw [htable] at htable'
      cases htable'
      exact ⟨table, index, ⟨position, htable, hindex⟩, column, hvalue, Or.inl rfl⟩
    · rename_i position
      obtain ⟨table, index, htable, hindex, hvalue⟩ := cellAt?_eq_some.1 hcell
      refine ⟨table, index, ⟨position, htable, hindex⟩, name, hvalue, Or.inr ⟨?_, rfl⟩⟩
      have howner : ∀ i ∈ (ofTables tables).ownersOf name, i = position := by
        intro i hi
        obtain ⟨table', ht, hcolumn⟩ := mem_ownersOf.1 hi
        exact honly i table' ht hcolumn
      exact isAmbiguous_eq_false.2 fun i hi j hj => (howner i hi).trans (howner j hj).symm

/-- **The values of a joined row are the texts of its variables.** -/
theorem get?_values {tables : List Table} (h : Plain tables) {row : Row} {name text : String} :
    ((ofTables tables).values tables row).get? name = some text ↔
      Variable tables row name text := by
  rw [values, Values.get?_ofPairs_eq_some, mem_pairs]
  rintro ⟨name, text⟩ hp ⟨name', text'⟩ hq hname
  cases hname
  exact (mem_pairs.1 hp).text_inj h (mem_pairs.1 hq)

theorem exists_cellAt? {tables : List Table} {row : Row}
    (hrow : ∀ (position : Nat) (table : Table), tables[position]? = some table →
      ∃ index, row[position]? = some index ∧ index < table.size)
    {position : Nat} {table : Table} {column : String} (htable : tables[position]? = some table)
    (hcolumn : column ∈ table.columns) :
    ∃ text, cellAt? tables row position column = some text := by
  obtain ⟨index, hindex, hsize⟩ := hrow position table htable
  obtain ⟨text, hvalue⟩ := Table.exists_value? hsize hcolumn
  exact ⟨text, cellAt?_eq_some.2 ⟨table, index, htable, hindex, hvalue⟩⟩

/-- **A name that stands for a column names a cell of each joined row.** -/
theorem exists_variable {tables : List Table} (h : Plain tables) {row : Row}
    (hrow : ∀ (position : Nat) (table : Table), tables[position]? = some table →
      ∃ index, row[position]? = some index ∧ index < table.size)
    {name : String} (hname : (ofTables tables).resolve name ≠ .undefined)
    (hone : ∀ alternatives, (ofTables tables).resolve name ≠ .ambiguous alternatives) :
    ∃ text, Variable tables row name text := by
  cases hresolve : (ofTables tables).resolve name with
  | bare position index =>
    obtain ⟨⟨table, htable, hcolumn⟩, honly⟩ := (resolve_eq_bare h).1 hresolve
    obtain ⟨text, htext⟩ := exists_cellAt? hrow htable (List.mem_of_getElem? hcolumn)
    exact ⟨text, .bare honly htext⟩
  | qualified position index =>
    obtain ⟨table, column, htable, hcolumn, rfl⟩ := (resolve_eq_qualified h).1 hresolve
    obtain ⟨text, htext⟩ := exists_cellAt? hrow htable (List.mem_of_getElem? hcolumn)
    exact ⟨text, .qualified htable htext⟩
  | ambiguous alternatives => exact absurd hresolve (hone alternatives)
  | undefined => exact absurd hresolve hname

end Scope

end Stencil
