/-
  The cells of a table.

  `value?_eq_some`: the cells of a row by the names of their columns;
  `value?_eq_some_iff_mem_zip`: the same by the pairs of a column and its cell;
  `exists_value?`: a row has a cell for each column.
-/
import Stencil.Proofs.Position
import Stencil.Table

namespace Stencil.Table

theorem value?_eq_some {t : Table} {row : Nat} {column text : String} :
    t.value? row column = some text ↔
      ∃ (cells : List String) (index : Nat), t.row? row = some cells ∧
        t.columns[index]? = some column ∧ cells[index]? = some text := by
  simp only [value?, columnIndex?, cell?, Option.bind_eq_bind, Option.bind_eq_some_iff,
    idxOf?_eq_some_iff_getElem? t.nodup_columns]
  constructor
  · rintro ⟨index, hindex, cells, hrow, hcell⟩
    exact ⟨cells, index, hrow, hindex, hcell⟩
  · rintro ⟨cells, index, hrow, hindex, hcell⟩
    exact ⟨index, hindex, cells, hrow, hcell⟩

theorem value?_eq_some_iff_mem_zip {t : Table} {row : Nat} {column text : String} :
    t.value? row column = some text ↔
      ∃ cells, t.row? row = some cells ∧ (column, text) ∈ t.columns.zip cells := by
  simp only [value?_eq_some, List.mem_iff_getElem?, List.getElem?_zip_eq_some]
  constructor
  · rintro ⟨cells, index, hrow, hcolumn, hcell⟩
    exact ⟨cells, hrow, index, hcolumn, hcell⟩
  · rintro ⟨cells, hrow, index, hcolumn, hcell⟩
    exact ⟨cells, index, hrow, hcolumn, hcell⟩

theorem mem_columns_of_value? {t : Table} {row : Nat} {column text : String}
    (h : t.value? row column = some text) : column ∈ t.columns := by
  obtain ⟨cells, index, -, hindex, -⟩ := value?_eq_some.1 h
  exact List.mem_of_getElem? hindex

/-- **A row has a cell for each column.** -/
theorem exists_value? {t : Table} {row : Nat} {column : String} (hrow : row < t.size)
    (hcolumn : column ∈ t.columns) : ∃ text, t.value? row column = some text := by
  obtain ⟨cells, hcells⟩ : ∃ cells, t.row? row = some cells :=
    ⟨_, List.getElem?_eq_getElem hrow⟩
  obtain ⟨index, hindex⟩ := List.mem_iff_getElem?.1 hcolumn
  have hlen := t.length_row cells (List.mem_of_getElem? hcells)
  have hlt : index < cells.length := hlen ▸ (List.getElem?_eq_some_iff.1 hindex).1
  exact ⟨cells[index], value?_eq_some.2
    ⟨cells, index, hcells, hindex, List.getElem?_eq_getElem hlt⟩⟩

end Stencil.Table
